import FactorSage.StockCache.Store

/-!
# The scripts of the stock cache

Each Lua script as a function of the store it runs on, atomic as Redis runs it. A script that
replies `0` changes nothing.

`Command` is a script call as a caller can make it: the manifests it presents as hydrating and
ready have those statuses, the generation a refresh observes is ready (the loader refreshes only a
manifest that is current), and a lifetime is positive.
-/

namespace FactorSage.StockCache

variable {Security Symbol Payload : Type} [LinearOrder Security] [DecidableEq Symbol]

/-- What a script replies. -/
inductive Reply (Security : Type)
  /-- `0`. -/
  | refused
  /-- `1`. -/
  | done
  /-- `{1, victim…}`. -/
  | admitted (victims : List Security)
  /-- `2`: ready, and counted by neither tier. -/
  | uncounted
  /-- `{removed, victim…}`. -/
  | removed (count : ℕ) (victims : List Security)
  /-- The number of designations added. -/
  | added (count : ℕ)
  deriving DecidableEq

/-- The victims a reply reports. -/
def Reply.victims : Reply Security → List Security
  | .admitted victims => victims
  | .removed _ victims => victims
  | _ => []

abbrev Outcome (Security Symbol Payload : Type) [LinearOrder Security] :=
  Store Security Symbol Payload × Reply Security

section Hydration

variable (s : Security) (st : Store Security Symbol Payload)

/-- The end of `BEGIN_HYDRATION`: the generation is persistent in the protected tier, and has the
in-flight lifetime outside it. -/
def startGeneration (hydrating : StockManifest Security) (ttl : ℕ) :
    Store Security Symbol Payload :=
  if s ∈ st.protectedStocks then
    (st.setManifest s hydrating none).register s (.manifest s)
  else
    ((st.setManifest s hydrating (some (st.now + ttl))).register s (.manifest s)).expireRegistry s
      (some (st.now + ttl))

/-- `BEGIN_HYDRATION`. -/
def beginHydration (observed : Option (StockManifest Security)) (hydrating : StockManifest Security)
    (ttl : ℕ) (tier : Tier) : Outcome Security Symbol Payload :=
  if st.manifest? s ≠ observed then (st, .refused)
  else
    (startGeneration s (((st.deleteRegistered s).leaveLru s).route s tier) hydrating ttl, .done)

/-- The end of `BEGIN_REFRESH`: only a counted security is refreshed, and it keeps its keys. -/
def refreshRouted (hydrating : StockManifest Security) (ttl : ℕ) :
    Outcome Security Symbol Payload :=
  if s ∈ st.protectedStocks then
    (((st.setManifest s hydrating none).register s (.manifest s)).leaveLru s, .done)
  else if s ∉ st.residentStocks.members then (st, .refused)
  else
    ((((st.setManifest s hydrating (some (st.now + ttl))).register s
      (.manifest s)).retimeRegistered s (some (st.now + ttl))).leaveLru s, .done)

/-- `BEGIN_REFRESH`. -/
def beginRefresh (observed hydrating : StockManifest Security) (ttl : ℕ) (tier : Tier) :
    Outcome Security Symbol Payload :=
  if st.manifest? s ≠ some observed then (st, .refused)
  else refreshRouted s (st.route s tier) hydrating ttl

/-- What is left of the manifest's lifetime, `none` when it has no TTL. -/
def remainingLifetime : Option ℕ :=
  ((st.manifests s).bind (·.expiresAt)).map (· - st.now)

/-- The lifetime a key written now takes, `none` when it is persistent, and the store with its
generation's lifetime extended; nothing when the write is refused. The unfenced branch reads the
remaining lifetime and never extends it. -/
def writeLifetime (fence : Option (StockManifest Security)) (full : ℕ) :
    Option (Option ℕ × Store Security Symbol Payload) :=
  match fence with
  | some hydrating =>
    if st.manifest? s ≠ some hydrating then none
    else
      match remainingLifetime s st with
      | none => some (none, st)
      | some remaining =>
        if remaining ≤ 0 then none
        else if 2 * remaining < full then
          some (some full, st.retimeRegistered s (some (st.now + full)))
        else some (some remaining, st)
  | none =>
    match st.manifest? s with
    | none => some (none, st)
    | some m =>
      if m.status = .hydrating then
        match remainingLifetime s st with
        | none => some (none, st)
        | some remaining => if remaining ≤ 0 then none else some (some remaining, st)
      else some (none, st)

/-- `SET_REGISTERED`. -/
def setRegistered (symbolOf : Security → Symbol) (k : OwnKey) (value : Payload)
    (fence : Option (StockManifest Security)) (full : ℕ) : Outcome Security Symbol Payload :=
  match writeLifetime s st fence full with
  | none => (st, .refused)
  | some (lifetime, st) =>
    ((st.setPayload (payloadKey symbolOf s k) value (lifetime.map (st.now + ·))).register s
      (.payload (payloadKey symbolOf s k)), .done)

/-- `RENEW_HYDRATION`. -/
def renewHydration (hydrating : StockManifest Security) (full : ℕ) :
    Outcome Security Symbol Payload :=
  if st.manifest? s ≠ some hydrating then (st, .refused)
  else
    match remainingLifetime s st with
    | none => (st, .done)
    | some remaining =>
      if remaining ≤ 0 then (st, .refused)
      else (st.retimeRegistered s (some (st.now + full)), .done)

end Hydration

section Residency

variable (capacity : ℕ) (s : Security) (st : Store Security Symbol Payload)

/-- The end of every admitting script: the security becomes the newest member, and the LRU gives up
its excess. -/
def admitNewest : Outcome Security Symbol Payload :=
  let enforced := enforceCapacity capacity (st.recordAccess s)
  (enforced.1, .admitted enforced.2)

/-- The end of `ADMIT_RESIDENT` and `PUBLISH_READY`: a designated security stays outside the LRU. -/
def admitRouted : Outcome Security Symbol Payload :=
  if s ∈ st.protectedStocks then (st.leaveLru s, .admitted []) else admitNewest capacity s st

/-- `TOUCH_READY`. -/
def touchReady : Outcome Security Symbol Payload :=
  match st.manifest? s with
  | none => (st, .refused)
  | some m =>
    if m.status ≠ .ready then (st, .refused)
    else if s ∈ st.protectedStocks then (st, .admitted [])
    else if s ∉ st.residentStocks.members then (st, .uncounted)
    else admitNewest capacity s st

/-- `ADMIT_RESIDENT`. -/
def admitResident (tier : Tier) : Outcome Security Symbol Payload :=
  match st.manifest? s with
  | none => (st, .refused)
  | some m =>
    if m.status ≠ .ready then (st, .refused)
    else admitRouted capacity s (st.route s tier)

/-- `PUBLISH_READY`. -/
def publishReady (ready : StockManifest Security) (fence : Option (StockManifest Security))
    (tier : Tier) : Outcome Security Symbol Payload :=
  if st.manifest? s ≠ fence then (st, .refused)
  else
    admitRouted capacity s
      ((((st.retimeRegistered s none).setManifest s ready none).register s (.manifest s)).route s
        tier)

/-- `INVALIDATE_MANIFEST`. -/
def invalidateManifest (observed : StockManifest Security) : Outcome Security Symbol Payload :=
  match st.manifest? s with
  | none => (st, .refused)
  | some current =>
    if current ≠ observed then (st, .refused)
    else if current.status ≠ .ready then (st, .refused)
    else (((st.deleteRegistered s).deleteManifest s).leaveLru s, .done)

/-- `EVICT_RESIDENT_STOCK`. -/
def evictResidentStock : Outcome Security Symbol Payload :=
  if s ∉ st.residentStocks.members ∧ s ∉ st.protectedStocks then (st, .refused)
  else ((st.deleteRegistered s).leaveLru s, .done)

/-- One turn of the loop of `PROTECT_STOCKS`. -/
def protectStock : Store Security Symbol Payload := (st.designate s).leaveLru s

/-- `PROTECT_STOCKS`. -/
def protectStocks (ids : List Security) : Outcome Security Symbol Payload :=
  (ids.foldl (fun st id => protectStock id st) st,
    .added (ids.toFinset \ st.protectedStocks).card)

/-- What `UNPROTECT_STOCKS` does with a security that lost its designation: a ready one joins the
LRU, and one in flight with no lifetime takes one. -/
def demote (ttl : ℕ) : Store Security Symbol Payload :=
  match st.manifests s with
  | none => st
  | some ⟨m, deadline⟩ =>
    if m.status = .ready then st.recordAccess s
    else if deadline = none then
      (st.retimeRegistered s (some (st.now + ttl))).expireManifest s (some (st.now + ttl))
    else st

/-- One turn of the loop of `UNPROTECT_STOCKS`. -/
def unprotectStock (ttl : ℕ) : Store Security Symbol Payload :=
  if s ∈ st.protectedStocks then demote s (st.undesignate s) ttl else st

/-- `UNPROTECT_STOCKS`. -/
def unprotectStocks (ids : List Security) (ttl : ℕ) : Outcome Security Symbol Payload :=
  let enforced := enforceCapacity capacity (ids.foldl (fun st id => unprotectStock id st ttl) st)
  (enforced.1, .removed (ids.toFinset ∩ st.protectedStocks).card enforced.2)

end Residency

/-- A script call. -/
inductive Command (Security Payload : Type)
  | beginHydration (s : Security) (observed : Option (StockManifest Security))
      (hydrating : HydratingManifest Security) (ttl : ℕ+) (tier : Tier)
  | beginRefresh (s : Security) (observed : ReadyManifest Security)
      (hydrating : HydratingManifest Security) (ttl : ℕ+) (tier : Tier)
  | setRegistered (s : Security) (k : OwnKey) (value : Payload)
      (fence : Option (HydratingManifest Security)) (ttl : ℕ+)
  | renewHydration (s : Security) (hydrating : HydratingManifest Security) (ttl : ℕ+)
  | touchReady (s : Security)
  | admitResident (s : Security) (tier : Tier)
  | publishReady (s : Security) (ready : ReadyManifest Security)
      (fence : Option (HydratingManifest Security)) (tier : Tier)
  | invalidateManifest (s : Security) (observed : StockManifest Security)
  | evictResidentStock (s : Security)
  | protectStocks (ids : List Security)
  | unprotectStocks (ids : List Security) (ttl : ℕ+)

/-- A script call on a store. -/
def execute (symbolOf : Security → Symbol) (capacity : ℕ) (st : Store Security Symbol Payload) :
    Command Security Payload → Outcome Security Symbol Payload
  | .beginHydration s observed hydrating ttl tier => beginHydration s st observed hydrating ttl tier
  | .beginRefresh s observed hydrating ttl tier => beginRefresh s st observed hydrating ttl tier
  | .setRegistered s k value fence ttl =>
    setRegistered s st symbolOf k value (fence.map Subtype.val) ttl
  | .renewHydration s hydrating ttl => renewHydration s st hydrating ttl
  | .touchReady s => touchReady capacity s st
  | .admitResident s tier => admitResident capacity s st tier
  | .publishReady s ready fence tier =>
    publishReady capacity s st ready (fence.map Subtype.val) tier
  | .invalidateManifest s observed => invalidateManifest s st observed
  | .evictResidentStock s => evictResidentStock s st
  | .protectStocks ids => protectStocks st ids
  | .unprotectStocks ids ttl => unprotectStocks capacity st ids ttl

/-- What happens to the store: a script call, or the passing of time. -/
inductive Event (Security Payload : Type)
  | command (c : Command Security Payload)
  | elapse (ms : ℕ)

end FactorSage.StockCache
