import FactorSage.Library.ExpiringMap
import FactorSage.Library.ScoredSet
import Mathlib.Data.Finset.Card
import Mathlib.Data.PNat.Basic

/-!
# The keyspace of the stock cache

What Redis holds for the stock cache, and the commands its scripts are made of. A security owns its
manifest, its yearly price and daily-state chunks, its identity row, and the registry naming them;
the LRU, the protected set and the access sequence are shared. A registry's keys are a set, so the
loops over `SMEMBERS` are the bulk operations of `ExpiringMap`.

A key is gone once the clock is past its deadline, which is when Redis stops serving it. The scores
of the LRU are exact: the model has no access count beyond the integers a double holds exactly.
-/

namespace FactorSage.StockCache

inductive ManifestStatus
  | hydrating
  | ready
  deriving DecidableEq

/-- A manifest, as its JSON spells it. Two payloads are equal exactly when the manifests are. -/
structure StockManifest (Security : Type) where
  securityId : Security
  status : ManifestStatus
  productHistoryYears : ℕ
  priceRetentionYears : ℕ
  coverageStart : Option String
  coverageEnd : Option String
  canonicalHistoryStart : Option String
  canonicalHistoryEnd : Option String
  hydratedAt : Option String
  lastPriceRefreshAt : Option String
  lastFundamentalsRefreshAt : Option String
  hydrationId : Option String
  hydratingAt : Option String
  priceDatasetVersion : ℕ
  financialStatementVersion : ℕ
  derivedStateRevision : ℕ
  dailyStateEncodingVersion : ℕ
  deriving DecidableEq

/-- The manifest of a generation in flight, which its holder presents as its fence. -/
abbrev HydratingManifest (Security : Type) :=
  { m : StockManifest Security // m.status = .hydrating }

/-- The manifest of a published generation. -/
abbrev ReadyManifest (Security : Type) :=
  { m : StockManifest Security // m.status = .ready }

/-- What a security registers besides its manifest. -/
inductive OwnKey
  | prices (year : ℕ)
  | dailyState (year : ℕ)
  | identity
  deriving DecidableEq

/-- The keys that hold a payload. An identity row is named by symbol, not by security. -/
inductive PayloadKey (Security Symbol : Type)
  | prices (security : Security) (year : ℕ)
  | dailyState (security : Security) (year : ℕ)
  | security (symbol : Symbol)
  deriving DecidableEq

/-- The keys a registry may name. -/
inductive Key (Security Symbol : Type)
  | manifest (security : Security)
  | payload (key : PayloadKey Security Symbol)
  deriving DecidableEq

/-- The tier the universe routes a security to: protected, or the LRU unless designated. -/
inductive Tier
  | P
  | L
  deriving DecidableEq

variable {Security Symbol Payload : Type} [LinearOrder Security] [DecidableEq Symbol]

/-- `priceYearKey`, `dailyStateYearKey` and `symbolSecurityKey`. -/
def payloadKey (symbolOf : Security → Symbol) (s : Security) : OwnKey → PayloadKey Security Symbol
  | .prices year => .prices s year
  | .dailyState year => .dailyState s year
  | .identity => .security (symbolOf s)

structure Store (Security Symbol Payload : Type) [LinearOrder Security] where
  now : ℕ
  manifests : ExpiringMap Security (StockManifest Security)
  payloads : ExpiringMap (PayloadKey Security Symbol) Payload
  registries : ExpiringMap Security (Finset (Key Security Symbol))
  residentStocks : ScoredSet Security
  protectedStocks : Finset Security
  accessSequence : ℕ

namespace Store

def empty : Store Security Symbol Payload where
  now := 0
  manifests := fun _ => none
  payloads := fun _ => none
  registries := fun _ => none
  residentStocks := .empty
  protectedStocks := ∅
  accessSequence := 0

variable (st : Store Security Symbol Payload)

/-- `GET` of the manifest. -/
def manifest? (s : Security) : Option (StockManifest Security) := st.manifests.value? s

/-- `SMEMBERS` of the registry: no key when there is none. -/
def registeredKeys (s : Security) : Finset (Key Security Symbol) :=
  (st.registries.value? s).getD ∅

/-- `DEL` of every registered key, then of the registry. -/
def deleteRegistered (s : Security) : Store Security Symbol Payload :=
  { st with
    manifests := st.manifests.deleteAll fun t => .manifest t ∈ st.registeredKeys s
    payloads := st.payloads.deleteAll fun k => .payload k ∈ st.registeredKeys s
    registries := st.registries.deleteAll (· = s) }

/-- `DEL` of the manifest. -/
def deleteManifest (s : Security) : Store Security Symbol Payload :=
  { st with manifests := st.manifests.deleteAll (· = s) }

/-- `PEXPIRE` of every registered key and of the registry; `PERSIST` when the deadline is `none`. -/
def retimeRegistered (s : Security) (d : Option ℕ) : Store Security Symbol Payload :=
  { st with
    manifests := st.manifests.retime (fun t => .manifest t ∈ st.registeredKeys s) d
    payloads := st.payloads.retime (fun k => .payload k ∈ st.registeredKeys s) d
    registries := st.registries.retime (· = s) d }

/-- `SET` of the manifest, with `PX` when a deadline is given. -/
def setManifest (s : Security) (m : StockManifest Security) (d : Option ℕ) :
    Store Security Symbol Payload :=
  { st with manifests := st.manifests.put s m d }

/-- `SET` of a payload key, with `PX` when a deadline is given. -/
def setPayload (k : PayloadKey Security Symbol) (v : Payload) (d : Option ℕ) :
    Store Security Symbol Payload :=
  { st with payloads := st.payloads.put k v d }

/-- `SADD` to the registry, which keeps its deadline; a new one has none. -/
def register (s : Security) (k : Key Security Symbol) : Store Security Symbol Payload :=
  { st with
    registries :=
      st.registries.put s (insert k (st.registeredKeys s)) ((st.registries s).bind (·.expiresAt)) }

theorem registeredKeys_register_self (s : Security) (k : Key Security Symbol) :
    (st.register s k).registeredKeys s = insert k (st.registeredKeys s) := by
  simp [register, registeredKeys, ExpiringMap.value?]

/-- `ZREM` from the LRU. -/
def leaveLru (s : Security) : Store Security Symbol Payload :=
  { st with residentStocks := st.residentStocks.remove s }

/-- `SADD` to the protected set. -/
def designate (s : Security) : Store Security Symbol Payload :=
  { st with protectedStocks := insert s st.protectedStocks }

/-- `SREM` from the protected set. -/
def undesignate (s : Security) : Store Security Symbol Payload :=
  { st with protectedStocks := st.protectedStocks.erase s }

/-- `PEXPIRE` of the manifest. -/
def expireManifest (s : Security) (d : Option ℕ) : Store Security Symbol Payload :=
  { st with manifests := st.manifests.retime (· = s) d }

/-- `PEXPIRE` of the registry. -/
def expireRegistry (s : Security) (d : Option ℕ) : Store Security Symbol Payload :=
  { st with registries := st.registries.retime (· = s) d }

/-- `SADD` to the protected set when the caller routes the security there. -/
def route (s : Security) : Tier → Store Security Symbol Payload
  | .P => st.designate s
  | .L => st

/-- `next_sequence`: the incremented counter, or one past the newest score. -/
def nextSequence : ℕ :=
  match st.residentStocks.newestScore? with
  | some newest => if st.accessSequence + 1 ≤ newest then newest + 1 else st.accessSequence + 1
  | none => st.accessSequence + 1

/-- `ZADD` to the LRU with the next sequence. -/
def recordAccess (s : Security) : Store Security Symbol Payload :=
  { st with
    residentStocks := st.residentStocks.add s st.nextSequence
    accessSequence := st.nextSequence }

theorem deleteRegistered_manifests (s t : Security) :
    (st.deleteRegistered s).manifests t =
      if .manifest t ∈ st.registeredKeys s then none else st.manifests t := rfl

theorem deleteRegistered_payloads (s : Security) (k : PayloadKey Security Symbol) :
    (st.deleteRegistered s).payloads k =
      if .payload k ∈ st.registeredKeys s then none else st.payloads k := rfl

theorem deleteRegistered_registries (s t : Security) :
    (st.deleteRegistered s).registries t = if t = s then none else st.registries t := rfl

theorem retimeRegistered_manifests (s t : Security) (d : Option ℕ) :
    (st.retimeRegistered s d).manifests t =
      if .manifest t ∈ st.registeredKeys s then
        (st.manifests t).map ({ · with expiresAt := d })
      else st.manifests t := rfl

theorem retimeRegistered_payloads (s : Security) (d : Option ℕ) (k : PayloadKey Security Symbol) :
    (st.retimeRegistered s d).payloads k =
      if .payload k ∈ st.registeredKeys s then
        (st.payloads k).map ({ · with expiresAt := d })
      else st.payloads k := rfl

theorem retimeRegistered_registries (s t : Security) (d : Option ℕ) :
    (st.retimeRegistered s d).registries t =
      if t = s then (st.registries t).map ({ · with expiresAt := d }) else st.registries t := rfl

/-- The passing of `ms`: the clock moves and the keys past their deadline are gone. -/
def elapse (ms : ℕ) : Store Security Symbol Payload :=
  { st with
    now := st.now + ms
    manifests := st.manifests.purge (st.now + ms)
    payloads := st.payloads.purge (st.now + ms)
    registries := st.registries.purge (st.now + ms) }

end Store

/-- The loop of `enforce_capacity`, one victim a turn. -/
def evictBeyond (capacity : ℕ) :
    ℕ → Store Security Symbol Payload → Store Security Symbol Payload × List Security
  | 0, st => (st, [])
  | fuel + 1, st =>
    if st.residentStocks.card ≤ capacity then (st, [])
    else
      match st.residentStocks.oldest? with
      | none => (st, [])
      | some victim =>
        if victim ∈ st.protectedStocks then evictBeyond capacity fuel (st.leaveLru victim)
        else
          let rest := evictBeyond capacity fuel ((st.leaveLru victim).deleteRegistered victim)
          (rest.1, victim :: rest.2)

/-- `enforce_capacity`: the LRU's excess over its capacity, evicted least recently used first. Each
turn removes a member, so the member count bounds the turns. -/
def enforceCapacity (capacity : ℕ) (st : Store Security Symbol Payload) :
    Store Security Symbol Payload × List Security :=
  evictBeyond capacity st.residentStocks.card st

end FactorSage.StockCache
