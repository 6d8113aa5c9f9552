import FactorSage.Library.ComparatorSort
import FactorSage.Library.OrderedMap

/-!
# The member catalog

Who a congressional rule may select: the catalog is synchronized with the provider's member
directory. `readDirectory` reads every page of both halves or refuses, `planCongressMemberCatalog`
decides what one whole directory changes, `applyCatalogChanges` writes it, and `sync` is one run.

`localeCompare` is a parameter: the order of strings belongs to the runtime. A run is given the
answers of the store and the provider, and is read off by its result and the calls it made.
-/

namespace FactorSage.Congress

open ComparatorSort

inductive CongressChamber where
  | HOUSE
  | SENATE
  deriving DecidableEq

/-- One capital letter and six digits. -/
def isBioguideId (value : String) : Bool :=
  match value.toList with
  | [] => false
  | letter :: digits => letter.isUpper && digits.length = 6 && digits.all Char.isDigit

/-- Two capital letters. -/
def isStateCode (value : String) : Bool :=
  value.toList.length = 2 && value.toList.all Char.isUpper

/-- One member as the directory describes them. -/
structure MappedFmpCongressMember where
  externalId : String
  name : Option String
  chamber : Option CongressChamber
  positionRaw : Option String
  state : Option String
  inOffice : Option Bool
  /-- A state is read only as two letters. -/
  state_letters : ∀ s ∈ state, isStateCode s = true
  deriving DecidableEq

/-- A string that is there and not empty. -/
def truthy (s : Option String) : Option String := s.filter (· ≠ "")

/-! ### Planning -/

inductive CongressMemberDeclineReason where
  | MALFORMED_ID
  | CONFLICTING_ROWS
  | UNNAMED
  | NO_CHAMBER
  deriving DecidableEq

structure DeclinedCongressMember where
  externalId : String
  reason : CongressMemberDeclineReason
  position : Option String
  deriving DecidableEq

/-- One catalog identity, as far as a synchronization needs to know it. -/
structure CongressMemberCatalogIdentity where
  externalId : String
  displayName : String
  profileName : Option String
  chamber : CongressChamber
  state : Option String
  hasDisclosures : Bool
  deriving DecidableEq

structure CongressMemberCatalogCreate where
  externalId : String
  displayName : String
  profileName : String
  chamber : CongressChamber
  state : Option String
  deriving DecidableEq

structure Label where
  displayName : String
  chamber : CongressChamber
  state : Option String
  deriving DecidableEq

structure CongressMemberCatalogUpdate where
  externalId : String
  profileName : Option String
  label : Option Label
  deriving DecidableEq

structure CongressMemberCatalogChanges where
  create : List CongressMemberCatalogCreate
  update : List CongressMemberCatalogUpdate
  deriving DecidableEq

structure CongressMemberCatalogPlan where
  changes : CongressMemberCatalogChanges
  unchanged : ℕ
  declined : List DeclinedCongressMember
  retained : ℕ
  deriving DecidableEq

/-- A row of the directory, and whether another row of its identifier disagrees. -/
structure DirectoryRow where
  member : MappedFmpCongressMember
  conflicting : Bool
  deriving DecidableEq

/-- What one identity of the directory comes to. -/
inductive Verdict where
  | declined (entry : DeclinedCongressMember)
  | create (member : CongressMemberCatalogCreate)
  | update (change : CongressMemberCatalogUpdate)
  | unchanged

/-- The label a directory row gives a member no disclosure names, where it is not the one stored. -/
def relabel (known : CongressMemberCatalogIdentity) (member : MappedFmpCongressMember)
    (name : String) : Option Label :=
  match member.chamber with
  | none => none
  | some chamber =>
    if known.hasDisclosures = false
        ∧ (known.displayName ≠ name ∨ known.chamber ≠ chamber ∨ known.state ≠ member.state) then
      some { displayName := name, chamber := chamber, state := member.state }
    else none

/-- A member the catalog does not hold. -/
def admitMember (externalId : String) (member : MappedFmpCongressMember) (name : String) : Verdict :=
  match member.chamber with
  | none =>
    .declined
      { externalId := externalId, reason := .NO_CHAMBER, position := truthy member.positionRaw }
  | some chamber =>
    .create
      { externalId := externalId
        displayName := name
        profileName := name
        chamber := chamber
        state := truthy member.state }

/-- What differs between a catalog row and its directory row. -/
def updateOf (known : CongressMemberCatalogIdentity) (externalId : String)
    (member : MappedFmpCongressMember) (name : String) : CongressMemberCatalogUpdate where
  externalId := externalId
  profileName := if known.profileName ≠ some name then some name else none
  label := relabel known member name

/-- A member the catalog holds. -/
def refresh (known : CongressMemberCatalogIdentity) (externalId : String)
    (member : MappedFmpCongressMember) (name : String) : Verdict :=
  let update := updateOf known externalId member name
  if update.profileName = none ∧ update.label = none then .unchanged else .update update

/-- One pass of the loop, before it is written down. -/
def verdict (known? : Option CongressMemberCatalogIdentity) (externalId : String)
    (row : DirectoryRow) : Verdict :=
  if isBioguideId externalId = false then
    .declined { externalId := externalId, reason := .MALFORMED_ID, position := none }
  else if row.conflicting then
    .declined { externalId := externalId, reason := .CONFLICTING_ROWS, position := none }
  else
    match truthy row.member.name with
    | none => .declined { externalId := externalId, reason := .UNNAMED, position := none }
    | some name =>
      match known? with
      | none => admitMember externalId row.member name
      | some known => refresh known externalId row.member name

def CongressMemberCatalogPlan.add (plan : CongressMemberCatalogPlan) :
    Verdict → CongressMemberCatalogPlan
  | .declined entry => { plan with declined := plan.declined ++ [entry] }
  | .create member =>
    { plan with changes := { plan.changes with create := plan.changes.create ++ [member] } }
  | .update change =>
    { plan with changes := { plan.changes with update := plan.changes.update ++ [change] } }
  | .unchanged => { plan with unchanged := plan.unchanged + 1 }

abbrev Directory := OrderedMap String DirectoryRow

def identityMap (catalog : List CongressMemberCatalogIdentity) :
    OrderedMap String CongressMemberCatalogIdentity :=
  OrderedMap.ofList (catalog.map fun identity => (identity.externalId, identity))

section Planning

variable (localeCompare : String → String → ℤ)

/-- The directory in identifier order. -/
def ordered (directory : Directory) : List (String × DirectoryRow) :=
  sortBy (fun left right => localeCompare left.1 right.1) directory.entries

/-- What one whole directory changes in the catalog. -/
def planCongressMemberCatalog (directory : Directory)
    (catalog : List CongressMemberCatalogIdentity) : CongressMemberCatalogPlan :=
  let retained := (catalog.filter fun identity => !directory.contains identity.externalId).length
  (ordered localeCompare directory).foldl
    (fun plan entry =>
      plan.add (verdict ((identityMap catalog).get? entry.1) entry.1 entry.2))
    { changes := { create := [], update := [] }
      unchanged := 0
      declined := []
      retained := retained }

end Planning

/-! ### Writing -/

/-- A row of the catalog's table, by its identifier. -/
structure AlternativeDataActor where
  displayName : String
  profileName : Option String
  chamber : CongressChamber
  state : Option String
  /-- How many disclosures name them. -/
  congressTrades : ℕ
  deriving DecidableEq

abbrev Catalog := OrderedMap String AlternativeDataActor

/-- A row as a synchronization reads it. -/
def identityOf (externalId : String) (row : AlternativeDataActor) :
    CongressMemberCatalogIdentity where
  externalId := externalId
  displayName := row.displayName
  profileName := row.profileName
  chamber := row.chamber
  state := row.state
  hasDisclosures := 0 < row.congressTrades

/-- Every identity the catalog holds. Their order is the database's: the plan does not read it. -/
def readCatalogIdentities (catalog : Catalog) : List CongressMemberCatalogIdentity :=
  catalog.entries.map fun row => identityOf row.1 row.2

structure Written where
  created : ℕ
  updated : ℕ
  relabelled : ℕ
  deriving DecidableEq

/-- The catalog in the middle of a write. -/
structure Writing where
  catalog : Catalog
  written : Written

/-- The row of a member no disclosure has named. -/
def createdRow (member : CongressMemberCatalogCreate) : AlternativeDataActor where
  displayName := member.displayName
  profileName := some member.profileName
  chamber := member.chamber
  state := truthy member.state
  congressTrades := 0

/-- One row of `createMany`, skipped when its identifier is there already. -/
def applyCreate (w : Writing) (member : CongressMemberCatalogCreate) : Writing :=
  if w.catalog.contains member.externalId then w
  else
    { catalog := w.catalog.set member.externalId (createdRow member)
      written := { w.written with created := w.written.created + 1 } }

/-- What one update leaves of a row: a label only where no disclosure names the member. -/
def updateRow (change : CongressMemberCatalogUpdate) (row : AlternativeDataActor) :
    AlternativeDataActor :=
  let named : AlternativeDataActor :=
    match change.profileName with
    | none => row
    | some profileName => { row with profileName := some profileName }
  match change.label with
  | none => named
  | some label =>
    if row.congressTrades = 0 then
      { named with
        displayName := label.displayName
        chamber := label.chamber
        state := label.state }
    else named

def applyUpdate (w : Writing) (change : CongressMemberCatalogUpdate) : Writing :=
  match w.catalog.get? change.externalId with
  | none => w
  | some row =>
    let labelled : Bool := change.label.isSome && row.congressTrades = 0
    { catalog := w.catalog.set change.externalId (updateRow change row)
      written :=
        { w.written with
          relabelled := w.written.relabelled + labelled.toNat
          updated := w.written.updated + (change.profileName.isSome || labelled).toNat } }

/-- One run's changes, in one transaction. -/
def applyCatalogChanges (changes : CongressMemberCatalogChanges) (catalog : Catalog) : Writing :=
  changes.update.foldl applyUpdate
    (changes.create.foldl applyCreate ⟨catalog, { created := 0, updated := 0, relabelled := 0 }⟩)

/-! ### Reading the directory -/

def CONGRESS_MEMBER_DIRECTORY_MAX_PAGES : ℕ := 20

def DECLINED_SAMPLE_SIZE : ℕ := 25

inductive CongressMemberCatalogFailureCode where
  | PROVIDER_UNAVAILABLE
  | DIRECTORY_EMPTY
  | DIRECTORY_FILTER_NOT_HONOURED
  | DIRECTORY_PAGING_NOT_ADVANCING
  | DIRECTORY_TOO_LARGE
  | CLAIM_LOST
  | WRITE_FAILED
  deriving DecidableEq

/-- The stored spelling of a code. -/
def CongressMemberCatalogFailureCode.name : CongressMemberCatalogFailureCode → String
  | .PROVIDER_UNAVAILABLE => "PROVIDER_UNAVAILABLE"
  | .DIRECTORY_EMPTY => "DIRECTORY_EMPTY"
  | .DIRECTORY_FILTER_NOT_HONOURED => "DIRECTORY_FILTER_NOT_HONOURED"
  | .DIRECTORY_PAGING_NOT_ADVANCING => "DIRECTORY_PAGING_NOT_ADVANCING"
  | .DIRECTORY_TOO_LARGE => "DIRECTORY_TOO_LARGE"
  | .CLAIM_LOST => "CLAIM_LOST"
  | .WRITE_FAILED => "WRITE_FAILED"

/-- What a provider request may throw. -/
inductive ProviderError where
  | fmp (name : String) (statusCode : Option ℕ) (message : String)
  | other
  deriving DecidableEq

inductive ReadError where
  | refused (code : CongressMemberCatalogFailureCode) (message : String)
  | provider (error : ProviderError)
  deriving DecidableEq

structure FmpCongressMemberPage where
  /-- Rows the payload carried, before any normalization dropped one. -/
  providerRowCount : ℕ
  rows : List MappedFmpCongressMember

/-- The directory's answers, by half and page. -/
abbrev Provider := Bool → ℕ → Except ProviderError FmpCongressMemberPage

structure DirectoryEntry extends DirectoryRow where
  inOffice : Bool

structure DirectoryRead where
  entries : OrderedMap String DirectoryEntry
  providerRequests : ℕ
  repeatedRows : ℕ

/-- The walk keeps what it read when it is refused: the requests made are reported. -/
abbrev Walk := EStateM ReadError DirectoryRead

def sameMember (left right : MappedFmpCongressMember) : Bool :=
  left.name = right.name && left.chamber = right.chamber && left.positionRaw = right.positionRaw
    && left.state = right.state && left.inOffice = right.inOffice

def halfName (inOffice : Bool) : String :=
  if inOffice then "members in office" else "former members"

/-- A row written beside the rows of its identifier. -/
def DirectoryRead.record (read : DirectoryRead) (inOffice : Bool)
    (member : MappedFmpCongressMember) : DirectoryRead :=
  match read.entries.get? member.externalId with
  | none =>
    { read with
      entries := read.entries.set member.externalId
        { member := member, inOffice := inOffice, conflicting := false } }
  | some known =>
    if sameMember known.member member then { read with repeatedRows := read.repeatedRows + 1 }
    else
      { read with entries := read.entries.set member.externalId { known with conflicting := true } }

/-- The identifiers met in the half, and whether the page brought a new one. -/
structure Progress where
  seenInHalf : List String
  advanced : Bool

def Progress.see (progress : Progress) (externalId : String) : Progress :=
  if externalId ∈ progress.seenInHalf then progress
  else { seenInHalf := externalId :: progress.seenInHalf, advanced := true }

def readRow (inOffice : Bool) (page : ℕ) (progress : Progress) (member : MappedFmpCongressMember) :
    Walk Progress := do
  if member.inOffice ≠ some inOffice then
    throw (.refused .DIRECTORY_FILTER_NOT_HONOURED
      s!"The directory was asked for {halfName inOffice} and page {page} held a row that is not one")
  else
    modify fun read => read.record inOffice member
    return progress.see member.externalId

/-- One request. -/
def request (provider : Provider) (inOffice : Bool) (page : ℕ) : Walk FmpCongressMemberPage := do
  modify fun read => { read with providerRequests := read.providerRequests + 1 }
  match provider inOffice page with
  | .error error => throw (.provider error)
  | .ok result => return result

/-- The pages of one half from `page` on, with `left` of the bound left. A half ends at its first
empty page. -/
def readPages (provider : Provider) (inOffice : Bool) : ℕ → ℕ → List String → Walk PUnit
  | 0, _, _ =>
    throw (.refused .DIRECTORY_TOO_LARGE
      s!"The {halfName inOffice} were still being returned after {CONGRESS_MEMBER_DIRECTORY_MAX_PAGES} pages")
  | left + 1, page, seenInHalf => do
    let result ← request provider inOffice page
    if result.providerRowCount = 0 then
      if seenInHalf = [] then
        throw (.refused .DIRECTORY_EMPTY s!"The directory returned no {halfName inOffice}")
      else return ⟨⟩
    else
      let progress ← result.rows.foldlM (readRow inOffice page)
        { seenInHalf := seenInHalf, advanced := false }
      if progress.advanced = false ∧ 0 < result.rows.length then
        throw (.refused .DIRECTORY_PAGING_NOT_ADVANCING
          s!"Page {page} of the {halfName inOffice} repeated rows already received instead of advancing")
      else readPages provider inOffice left (page + 1) progress.seenInHalf

/-- Both halves of the directory, every page of each. -/
def readDirectory (provider : Provider) : Walk PUnit := do
  readPages provider true CONGRESS_MEMBER_DIRECTORY_MAX_PAGES 0 []
  readPages provider false CONGRESS_MEMBER_DIRECTORY_MAX_PAGES 0 []

/-! ### One run -/

structure CongressMemberCatalogSyncSummary where
  providerRequests : ℕ
  received : ℕ
  inOffice : ℕ
  former : ℕ
  created : ℕ
  updated : ℕ
  relabelled : ℕ
  unchanged : ℤ
  declined : ℕ
  declinedByReason : CongressMemberDeclineReason → ℕ
  repeatedRows : ℕ
  retained : ℕ

inductive Cause where
  | provider (error : ProviderError)
  | store (error : String)

inductive CongressMemberCatalogSyncResult where
  | COMPLETED (runSequence : ℕ) (summary : CongressMemberCatalogSyncSummary)
      (declined : List DeclinedCongressMember)
  | UP_TO_DATE (lastCompletedAt : ℤ)
  | ALREADY_RUNNING
  | FAILED (runSequence : ℕ) (code : CongressMemberCatalogFailureCode) (message : String)
      (providerRequests : ℕ) (cause : Option Cause)

/-- A call of the store. -/
inductive StoreCall where
  | getCatalogSyncState (now : ℤ)
  | claimCatalogSync (owner : String) (now leaseMs : ℤ)
  | renewCatalogSyncClaim (owner : String) (now leaseMs : ℤ)
  | failCatalogSync (owner : String) (now : ℤ) (error : String)
  | readCatalogIdentities
  | applyCatalogChanges (changes : CongressMemberCatalogChanges)
  | completeCatalogSync (owner : String) (now : ℤ) (summary : CongressMemberCatalogSyncSummary)

/-- What a run is given: the clock's readings in order, the provider, and what the store answers,
whatever else is written meanwhile. -/
structure Run where
  owner : String
  leaseMs : ℤ
  unlessCompletedWithinMs : Option ℤ
  now : ℕ → ℤ
  provider : Provider
  lastCompletedAt : Option ℤ
  claim : Option ℕ
  renewed : Bool
  identities : Except String (List CongressMemberCatalogIdentity)
  apply : CongressMemberCatalogChanges → Except String Written

/-- The message of a failed read, its code and its cause. -/
def readFailure : ReadError → CongressMemberCatalogFailureCode × String × Option Cause
  | .refused code message => (code, message, none)
  | .provider error =>
    match error with
    | .fmp name statusCode message =>
      let status := match statusCode.filter (· ≠ 0) with
        | none => ""
        | some code => s!" (HTTP {code})"
      (.PROVIDER_UNAVAILABLE, s!"{name}{status}: {message}", some (.provider error))
    | .other => (.PROVIDER_UNAVAILABLE, "The directory could not be read", some (.provider error))

/-- A directory row without its half, as the plan reads it. -/
def DirectoryRead.directory (read : DirectoryRead) : Directory :=
  read.entries.mapValues DirectoryEntry.toDirectoryRow

def summaryOf (read : DirectoryRead) (plan : CongressMemberCatalogPlan) (written : Written) :
    CongressMemberCatalogSyncSummary where
  providerRequests := read.providerRequests
  received := read.entries.size
  inOffice := (read.entries.values.filter fun entry => entry.inOffice).length
  former := (read.entries.values.filter fun entry => !entry.inOffice).length
  created := written.created
  updated := written.updated
  relabelled := written.relabelled
  unchanged := read.entries.size - plan.declined.length - written.created - written.updated
  declined := plan.declined.length
  declinedByReason reason := (plan.declined.filter fun entry => entry.reason = reason).length
  repeatedRows := read.repeatedRows
  retained := plan.retained

section Synchronizing

variable (localeCompare : String → String → ℤ) (run : Run)

/-- A failed run: its calls so far, and the claim given back with the reason. -/
def failed (calls : List StoreCall) (now : ℤ) (runSequence : ℕ)
    (code : CongressMemberCatalogFailureCode) (message : String) (providerRequests : ℕ)
    (cause : Option Cause) : CongressMemberCatalogSyncResult × List StoreCall :=
  (.FAILED runSequence code message providerRequests cause,
    calls ++ [.failCatalogSync run.owner now s!"{code.name}: {message}"])

/-- A whole directory, planned and written under a claim that was still held. -/
def write (calls : List StoreCall) (runSequence : ℕ) (read : DirectoryRead) :
    CongressMemberCatalogSyncResult × List StoreCall :=
  let unwritten (calls : List StoreCall) (error : String) :=
    failed run calls (run.now 4) runSequence .WRITE_FAILED
      "The directory was read whole but could not be written; the catalog is unchanged"
      read.providerRequests (some (.store error))
  match run.identities with
  | .error error => unwritten (calls ++ [.readCatalogIdentities]) error
  | .ok identities =>
    let plan := planCongressMemberCatalog localeCompare read.directory identities
    let calls := calls ++ [.readCatalogIdentities, .applyCatalogChanges plan.changes]
    match run.apply plan.changes with
    | .error error => unwritten calls error
    | .ok written =>
      let summary := summaryOf read plan written
      (.COMPLETED runSequence summary (plan.declined.take DECLINED_SAMPLE_SIZE),
        calls ++ [.completeCatalogSync run.owner (run.now 4) summary])

/-- A run that holds the claim. -/
def synchronize (calls : List StoreCall) (runSequence : ℕ) :
    CongressMemberCatalogSyncResult × List StoreCall :=
  match readDirectory run.provider ⟨OrderedMap.empty, 0, 0⟩ with
  | .error error read =>
    let (code, message, cause) := readFailure error
    failed run calls (run.now 3) runSequence code message read.providerRequests cause
  | .ok _ read =>
    let calls := calls ++ [.renewCatalogSyncClaim run.owner (run.now 3) run.leaseMs]
    if run.renewed then write localeCompare run calls runSequence read
    else
      (.FAILED runSequence .CLAIM_LOST
        "The run's claim expired while the directory was being read; nothing was written"
        read.providerRequests none, calls)

/-- The directory was synchronized recently enough for the caller. -/
def upToDate : Option ℤ := do
  let within ← run.unlessCompletedWithinMs
  let lastCompletedAt ← run.lastCompletedAt
  if run.now 1 - lastCompletedAt < within then some lastCompletedAt else none

/-- One run, and the calls it made. -/
def sync : CongressMemberCatalogSyncResult × List StoreCall :=
  let asked : List StoreCall :=
    if run.unlessCompletedWithinMs.isSome then [.getCatalogSyncState (run.now 0)] else []
  match upToDate run with
  | some lastCompletedAt => (.UP_TO_DATE lastCompletedAt, asked)
  | none =>
    let calls := asked ++ [.claimCatalogSync run.owner (run.now 2) run.leaseMs]
    match run.claim with
    | none => (.ALREADY_RUNNING, calls)
    | some runSequence => synchronize localeCompare run calls runSequence

end Synchronizing

end FactorSage.Congress
