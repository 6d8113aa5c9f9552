import FactorSage.Library.Command
import FactorSage.Library.StepSystem
import FactorSage.PriceBasis.Store

/-!
# Hydration and refresh cycles

The price part of a cycle: the first verification of the stored history, the reads of the missing
ranges or of the recent tail, the earliest-row check before a save, and the replacement of a re-based
history. A cycle runs under the stock's lease, so that no other cycle writes in between, while the
provider goes on changing: each request of a cycle may be preceded by any provider events, may fail,
and each check of the lease may end the cycle. What has been committed by then stays.

The profile, the fundamentals and the derived rows of a cycle write no price and are left out.
-/

namespace FactorSage.PriceBasis

open FactorSage.Rebase (closesDiffer exceedsShare)

/-- What a committed write left stored, and every history the provider had had by then. -/
structure Commit where
  prices : List DailyPrice
  instants : List History

/-- The store, the provider as it is, as it has been at any instant, and what was committed.
`cutoff` is the newest date whose end-of-day bar is final. -/
structure World where
  store : PriceStore
  cutoff : ℤ
  provider : History
  instants : List History
  commits : List Commit

/-- The world after an event at the provider. -/
def World.observe (world : World) (event : ProviderEvent) : World :=
  { world with
    provider := world.provider.apply event
    instants := world.provider.apply event :: world.instants }

def World.observeAll (world : World) (events : List ProviderEvent) : World :=
  events.foldl World.observe world

/-- A write that was committed. -/
def World.commit (world : World) (store : PriceStore) : World :=
  { world with
    store := store
    commits := ⟨store.prices.rows, world.instants⟩ :: world.commits }

/-- What happens at the provider before it comes to a request, and whether the request succeeds. -/
structure Request where
  before : List ProviderEvent
  answered : Bool

/-- A running cycle: what is to come of the requests and the lease checks it makes, and the
provider's history at each request so far, the newest first. -/
structure Session where
  world : World
  coming : List Request
  owned : List Bool
  reads : List History

namespace Session

/-- The next request. Once the list runs out nothing more happens at the provider. -/
def next (session : Session) : Request := session.coming.headD ⟨[], true⟩

/-- The session when the provider comes to the next request. -/
def arrive (session : Session) : Session :=
  { session with
    world := session.world.observeAll session.next.before
    coming := session.coming.tail
    reads := (session.world.observeAll session.next.before).provider :: session.reads }

end Session

abbrev Cycle := EStateM Failure Session

def getStore : Cycle PriceStore := do
  let session ← get
  pure session.world.store

/-- One request to the provider. -/
def request (range : DateRange) : Cycle (List DailyPrice) := do
  let session ← get
  set session.arrive
  if session.next.answered then pure (session.arrive.world.provider.getDailyPrices range)
  else throw .providerRequestFailed

/-- `lease.assertOwned` and `assertGeneration`: a check that may end the cycle. -/
def assertOwned : Cycle Unit := do
  let session ← get
  set { session with owned := session.owned.tail }
  if session.owned.headD true then pure () else throw .leaseLost

/-- A write and the check of the lease in one transaction: it is committed whole or not at all. -/
def transaction (write : PriceStore → Except Failure PriceStore) : Cycle Unit := do
  let session ← get
  match write session.world.store with
  | .error failure => throw failure
  | .ok store =>
    assertOwned
    modify fun session => { session with world := session.world.commit store }

def createPriceBasis : Cycle ℕ := do
  let session ← get
  set { session with world := { session.world with store := session.world.store.createPriceBasis } }
  pure (session.world.store.generation.getD 0)

/-- The store's save, within a cycle. Nothing is saved, and nothing recorded, when no range was
covered. -/
def saveDailyPriceSync (input : PriceStore.SaveInput) : Cycle Unit :=
  if input.successfulCoverage = [] then pure ()
  else transaction fun store => store.saveDailyPriceSync input

/-! ### The ex-date hold -/

/-- The rows that may be saved, and the date from which the others are held. -/
structure Hold where
  rows : List DailyPrice
  heldFrom : Option ℤ

def byDate (rows : List DailyPrice) : List DailyPrice :=
  rows.insertionSort fun left right => left.date ≤ right.date

/-- The rows of an ascending read from the newest stored one on: which of them are new. -/
def firstNewIndex (stored fresh : List DailyPrice) : ℕ :=
  match stored.getLast? with
  | none => 0
  | some newest => fresh.findIdx fun row => newest.date < row.date

/-- The hold of a whole-history read. -/
def replacementHold (stored fresh : List DailyPrice) : Hold :=
  match heldFromIndex fresh (firstNewIndex stored fresh) with
  | none => ⟨fresh, none⟩
  | some held => ⟨fresh.take held, fresh[held]?.map DailyPrice.date⟩

/-- The newest stored row, and the rows of a read after it. -/
def holdSeries (newestStored : Option DailyPrice) (sorted : List DailyPrice) : List DailyPrice :=
  match newestStored with
  | none => sorted
  | some newest => newest :: sorted.filter fun row => newest.date < row.date

/-- The date from which a read's rows are held, if any is. -/
def heldFromDate (newestStored : Option DailyPrice) (loaded : List DailyPrice) : Option ℤ :=
  let series := holdSeries newestStored (byDate loaded)
  (heldFromIndex series (if newestStored.isSome then 1 else 0)).bind fun held =>
    series[held]?.map DailyPrice.date

/-- Rows a read would save beside the stored history, minus any held after a split-sized move. -/
def applyExDateHold (newestStored : Option DailyPrice) (loaded : List DailyPrice) : Hold :=
  match heldFromDate newestStored loaded with
  | none => ⟨loaded, none⟩
  | some heldFrom => ⟨loaded.filter fun row => row.date < heldFrom, some heldFrom⟩

theorem mem_byDate {rows : List DailyPrice} {row : DailyPrice} : row ∈ byDate rows ↔ row ∈ rows :=
  List.mem_insertionSort _

theorem replacementHold_subset (stored fresh : List DailyPrice) :
    (replacementHold stored fresh).rows ⊆ fresh := by
  unfold replacementHold
  split
  · exact List.Subset.refl fresh
  · exact List.take_subset _ fresh

theorem applyExDateHold_subset (newestStored : Option DailyPrice) (loaded : List DailyPrice) :
    (applyExDateHold newestStored loaded).rows ⊆ loaded := by
  unfold applyExDateHold
  split
  · exact List.Subset.refl loaded
  · exact List.filter_sublist.subset

/-! ### Verification and replacement -/

def earliestRowsWindowCalendarDays : ℤ := 30

/-- The stored row whose session the provider still returns, compared with what it returns. -/
def earliestUnchanged (stored fresh : List DailyPrice) : Bool :=
  match stored.find? fun row => (rowOn fresh row.date).isSome with
  | none => false
  | some compared =>
    match rowOn fresh compared.date with
    | none => false
    | some read => !closesDiffer compared.close read.close

/-- Whether the earliest stored rows still read as they were stored. -/
def earliestStoredRowUnchanged : Cycle Bool := do
  let store ← getStore
  match store.getEarliestDailyPriceDate with
  | none => pure true
  | some earliest =>
    let fresh ← request ⟨earliest, earliest + earliestRowsWindowCalendarDays⟩
    pure (earliestUnchanged
      (store.getDailyPrices ⟨earliest, earliest + earliestRowsWindowCalendarDays⟩) fresh)

inductive Replacement
  | unchanged (comparedSessions : ℕ)
  | refused
  | replaced (generation : ℕ) (prices : List DailyPrice)

/-- The range of a whole-history read. -/
def wholeReadRange (store : PriceStore) (target : DateRange) : DateRange where
  fromDate :=
    match store.getEarliestDailyPriceDate with
    | none => target.fromDate
    | some earliest => min earliest target.fromDate
  toDate := target.toDate

/-- An answer missing more than 1 % of the stored sessions verifies nothing and replaces nothing. -/
def refuses (stored fresh : List DailyPrice) : Bool :=
  fresh = []
    || exceedsShare (histories stored fresh).storedOnly.length stored.length

/-- The range a replacement covers: the whole read up to what is held. -/
def replacementCoverage (range : DateRange) : Option ℤ → DateRange
  | none => range
  | some heldFrom => ⟨range.fromDate, max range.fromDate (heldFrom - 1)⟩

def replaceInput (basis : Option ℕ) (range : DateRange) (hold : Hold) :
    PriceStore.ReplaceInput where
  expectedGeneration := basis.getD 0
  prices := hold.rows
  priceCoverage := replacementCoverage range hold.heldFrom
  tailDate := range.toDate
  freshThrough := if hold.heldFrom = none then some range.toDate else none

/-- What a whole-history read does to the stored history. -/
def replaceWith (target range : DateRange) (basis : Option ℕ) (stored fresh : List DailyPrice) :
    Cycle Replacement :=
  if refuses stored fresh then pure .refused
  else if (histories stored fresh).changed ≠ [] then do
    assertOwned
    transaction fun store => store.replaceDailyPriceHistory
      (replaceInput basis range (replacementHold stored fresh))
    pure (.replaced (basis.getD 0 + 1)
      ((replacementHold stored fresh).rows.filter fun row => target.Holds row.date))
  else pure (.unchanged (histories stored fresh).common.length)

/-- Re-reads the whole history and, when it differs, replaces the stored one in one transaction. -/
def replacePriceHistoryWithinLease (target : DateRange) (basis : Option ℕ) :
    Cycle Replacement := do
  let store ← getStore
  let answer ← request (wholeReadRange store target)
  replaceWith target (wholeReadRange store target) basis
    (store.getDailyPrices (wholeReadRange store target))
    (byDate (withinRequestedRange answer (wholeReadRange store target)))

inductive VerificationState
  | verifiedNow
  | refusedNow
  | verifiedEarlier
  deriving DecidableEq

structure Verification where
  basis : Option ℕ
  replacedPrices : Option (List DailyPrice)
  state : VerificationState

/-- The first verification of a stored history whose whole read ended so. -/
def settleVerification : Replacement → Cycle Verification
  | .replaced generation prices => pure ⟨some generation, some prices, .verifiedNow⟩
  | .refused => pure ⟨none, none, .refusedNow⟩
  | .unchanged _ => do
    assertOwned
    let generation ← createPriceBasis
    pure ⟨some generation, none, .verifiedNow⟩

/-- The first verification of a security's stored price history, once per security. -/
def verifyPriceBasisWithinLease (target : DateRange) : Cycle Verification := do
  let store ← getStore
  match store.generation with
  | some generation => pure ⟨some generation, none, .verifiedEarlier⟩
  | none =>
    if store.getEarliestDailyPriceDate = none then do
      assertOwned
      let generation ← createPriceBasis
      pure ⟨some generation, none, .verifiedNow⟩
    else do
      let replacement ← replacePriceHistoryWithinLease target none
      settleVerification replacement

/-! ### Hydration -/

/-- Where the previous leading-edge price sync stopped being trustworthy, if any. -/
def unsettledTailStart (recentTail : ℕ) (store : PriceStore) (target : DateRange) : Option ℤ :=
  match store.freshThrough with
  | none => none
  | some previousTail =>
    if target.toDate < previousTail then none
    else some (max (previousTail - recentTail) target.fromDate)

/-- A gap that extends the leading edge also reads what the previous sync fetched unsettled. -/
def widenGap (unsettledFrom : Option ℤ) (target gap : DateRange) : DateRange :=
  match unsettledFrom with
  | none => gap
  | some unsettled =>
    if target.toDate ≤ gap.toDate then ⟨min gap.fromDate unsettled, gap.toDate⟩ else gap

/-- The ranges a hydration reads. -/
def gapsToRead (recentTail : ℕ) (store : PriceStore) (target : DateRange) : List DateRange :=
  (missingCoverageRanges target (store.getDatasetCoverage target)).map
    (widenGap (unsettledTailStart recentTail store target) target)

/-- One request for each gap. -/
def readGaps : List DateRange → Cycle (List DailyPrice)
  | [] => pure []
  | delta :: rest => do
    let answer ← request delta
    let others ← readGaps rest
    pure (withinRequestedRange answer delta ++ others)

/-- From the first loaded date to the last. -/
def loadedSpan (loaded : List DailyPrice) : DateRange :=
  let dates := (loaded.map DailyPrice.date).insertionSort (· ≤ ·)
  ⟨dates.headD 0, dates.getLastD 0⟩

/-- Whether the provider re-based the stored history since it was stored. A history verified in this
very cycle needs no second look. -/
def rebasedSinceStored (state : VerificationState) (newestStored : Option DailyPrice)
    (loaded : List DailyPrice) : Cycle Bool := do
  let store ← getStore
  if newestStored.isSome && state ≠ .verifiedNow && loaded ≠ []
      && changesStoredRows (store.getDailyPrices (loadedSpan loaded)) loaded then do
    let unchanged ← earliestStoredRowUnchanged
    pure !unchanged
  else pure false

/-- Whether nothing may be saved beside the stored history after all. -/
def blockedByRebase (target : DateRange) (verification : Verification) (rebased : Bool) :
    Cycle Bool :=
  if rebased then
    match verification.state with
    | .verifiedEarlier => do
      let replacement ← replacePriceHistoryWithinLease target verification.basis
      match replacement with
      | .unchanged _ => pure false
      | .refused => pure true
      | .replaced _ _ => pure true
    | .refusedNow => pure true
    | .verifiedNow => pure false
  else pure false

/-- The gaps up to what is held. -/
def coverageBefore (missing : List DateRange) : Option ℤ → List DateRange
  | none => missing
  | some heldFrom =>
    (missing.filter fun range => range.fromDate < heldFrom).map fun range =>
      if heldFrom ≤ range.toDate then ⟨range.fromDate, heldFrom - 1⟩ else range

def gapsInput (target : DateRange) (missing : List DateRange) (hold : Hold) :
    PriceStore.SaveInput where
  prices := hold.rows
  successfulCoverage := coverageBefore missing hold.heldFrom
  tailDate := target.toDate
  freshThrough :=
    if hold.heldFrom = none ∧ ∃ range ∈ missing, range.Holds target.toDate then some target.toDate
    else none

/-- Saves what the gaps' reads returned, unless the provider has re-based the stored history. -/
def saveGaps (target : DateRange) (verification : Verification) (missing : List DateRange)
    (loaded : List DailyPrice) : Cycle Unit := do
  let store ← getStore
  let rebased ← rebasedSinceStored verification.state (store.newestStoredPrice target.toDate) loaded
  let blocked ← blockedByRebase target verification rebased
  if blocked then pure ()
  else
    saveDailyPriceSync
      (gapsInput target missing (applyExDateHold (store.newestStoredPrice target.toDate) loaded))

/-- The prices of `hydrateWithinLease`. -/
def hydrateWithinLease (recentTail : ℕ) (target : DateRange) : Cycle Unit := do
  let verification ← verifyPriceBasisWithinLease target
  let store ← getStore
  let loaded ← readGaps (gapsToRead recentTail store target)
  assertOwned
  if gapsToRead recentTail store target = [] then pure ()
  else saveGaps target verification (gapsToRead recentTail store target) loaded

/-! ### Refresh -/

/-- The range a refresh reads. -/
def refreshRange (recentTail : ℕ) (store : PriceStore) (target : DateRange) : DateRange where
  fromDate :=
    match unsettledTailStart recentTail store target with
    | none => max (target.toDate - recentTail) target.fromDate
    | some unsettled => min (max (target.toDate - recentTail) target.fromDate) unsettled
  toDate := target.toDate

def tailInput (range : DateRange) (hold : Hold) : PriceStore.SaveInput where
  prices := hold.rows
  successfulCoverage :=
    match hold.heldFrom with
    | none => [range]
    | some heldFrom => if range.fromDate < heldFrom then [⟨range.fromDate, heldFrom - 1⟩] else []
  tailDate := range.toDate
  freshThrough := if hold.heldFrom = none then some range.toDate else none

/-- The row a tail read is held against: the newest stored one. -/
def newestBeside (store : PriceStore) (range : DateRange) : Option DailyPrice :=
  (store.getDailyPrices range).getLast?.or (store.newestStoredPrice range.toDate)

def saveTail (range : DateRange) (loaded : List DailyPrice) : Cycle Unit := do
  let store ← getStore
  assertOwned
  saveDailyPriceSync (tailInput range (applyExDateHold (newestBeside store range) loaded))

/-- A tail read that the earliest stored row does not confirm. -/
def replaceOrSaveTail (target range : DateRange) (wholeReadRefused : Bool)
    (loaded : List DailyPrice) : Cycle Unit :=
  if wholeReadRefused then pure ()
  else do
    let store ← getStore
    let replacement ← replacePriceHistoryWithinLease target store.generation
    match replacement with
    | .unchanged _ => saveTail range loaded
    | .refused => pure ()
    | .replaced _ _ => pure ()

/-- A tail read is saved once the earliest stored row confirms it, when it changes anything. -/
def settleTail (target range : DateRange) (wholeReadRefused : Bool) (loaded : List DailyPrice) :
    Cycle Unit := do
  let store ← getStore
  if changesStoredRows (store.getDailyPrices range) loaded then do
    let unchanged ← earliestStoredRowUnchanged
    if unchanged then saveTail range loaded
    else replaceOrSaveTail target range wholeReadRefused loaded
  else saveTail range loaded

def refreshPriceWithinLease (recentTail : ℕ) (target : DateRange) (wholeReadRefused : Bool) :
    Cycle Unit := do
  let store ← getStore
  let answer ← request (refreshRange recentTail store target)
  settleTail target (refreshRange recentTail store target) wholeReadRefused
    (withinRequestedRange answer (refreshRange recentTail store target))

/-- The prices of `ensureStockFresh`, once the stock is hydrated. -/
def refreshWithinLease (recentTail : ℕ) (target : DateRange) (refreshPrices : Bool) :
    Cycle Unit := do
  let verification ← verifyPriceBasisWithinLease target
  if verification.replacedPrices.isSome then pure ()
  else if refreshPrices then
    refreshPriceWithinLease recentTail target (verification.state = .refusedNow)
  else pure ()

/-! ### Runs -/

/-- What the outside does to a cycle. -/
structure Script where
  coming : List Request
  owned : List Bool

inductive Action
  | provider (event : ProviderEvent)
  | pass (days : ℕ)
  | hydrate (fromDate : ℤ) (script : Script)
  | refresh (fromDate : ℤ) (refreshPrices : Bool) (script : Script)

namespace World

/-- The world a cycle leaves, whether it ended or failed. -/
def afterCycle (world : World) (script : Script) (cycle : Cycle Unit) : World :=
  (cycle.stateAfter ⟨world, script.coming, script.owned, []⟩).world

/-- The target of a cycle ends at the cutoff. -/
def target (world : World) (fromDate : ℤ) : DateRange := ⟨fromDate, world.cutoff⟩

def run (recentTail : ℕ) (world : World) : Action → World
  | .provider event => world.observe event
  | .pass days => { world with cutoff := world.cutoff + days }
  | .hydrate fromDate script =>
    world.afterCycle script (hydrateWithinLease recentTail (world.target fromDate))
  | .refresh fromDate refreshPrices script =>
    world.afterCycle script (refreshWithinLease recentTail (world.target fromDate) refreshPrices)

/-- A cycle's target is a range of dates no earlier than any stored bar can be. -/
def Allows (world : World) : Action → Prop
  | .provider _ => True
  | .pass _ => True
  | .hydrate fromDate _ => earliestPersistedPriceDate ≤ fromDate ∧ fromDate ≤ world.cutoff
  | .refresh fromDate _ _ => earliestPersistedPriceDate ≤ fromDate ∧ fromDate ≤ world.cutoff

/-- A stored history that reads as the provider's does, verified or not, under any coverage. -/
structure Initial (world : World) : Prop where
  prices : world.store.prices.rows ⊆ world.provider.rows
  within : ∀ row ∈ world.store.prices.rows,
    (⟨earliestPersistedPriceDate, world.cutoff⟩ : DateRange).Holds row.date
  instants : world.instants = [world.provider]
  commits : world.commits = []

end World

/-- Cycles of one security, run one at a time, while the provider changes. -/
def loading (recentTail : ℕ) : StepSystem World Action where
  start := World.Initial
  step world action world' := world.Allows action ∧ world' = world.run recentTail action

end FactorSage.PriceBasis
