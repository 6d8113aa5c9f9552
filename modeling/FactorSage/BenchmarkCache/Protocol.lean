import FactorSage.Domain.CoverageRanges
import FactorSage.Library.OrderedMap
import FactorSage.Library.StepSystem
import Mathlib.Data.Finset.Basic
import Mathlib.Data.Finset.Image
import Mathlib.Data.List.Basic

/-!
# Publishing a benchmark series

A series' bars live in PostgreSQL, and are projected into Redis as one head and immutable yearly
chunks, each under the digest of the bars it was built from. `stageChunks`, `commitHead` and
`fenceGeneration` are the scripts of the projection, atomic as Redis runs them. A staged chunk
carries an expiry until a commit adopts it; its deadline is left out, so that it may expire at any
time.

Any number of publishers, replacements, fence re-establishments and readers over one series, in any
order. A replacement holds the series write lock from its start to its end, and raises the fence in
between; a publisher holds no lock, and may stop at any point or go on long after it should have.

* `Sound` — the invariant that links the committed generation, the lock, the fence and the head.
* `sound_of_reachable` — it holds of every reachable state.
* `publishAttempt_of_reachable` — a publication that nothing disturbs commits, whatever was left
  behind by the publications, replacements and losses before it.
* `head_of_reachable` — a visible head is of the committed generation and complete.
* `read_of_reachable` — what a reader has read is of one state of PostgreSQL, of the generation that
  was committed when it read the head.

The bars of a chunk are known by its digest, so the last three assume that no two years of bars share
one.
-/

namespace FactorSage.BenchmarkCache

variable {Bars Digest : Type} [DecidableEq Digest]

/-- A chunk's key: its year, and the digest of its bars. -/
abbrev ChunkKey (Digest : Type) : Type := ℕ × Digest

/-- What a publication shows. -/
structure BenchmarkCacheHead (Digest : Type) where
  /-- The generation the published bars were read under. -/
  basisGeneration : ℕ
  residentRanges : List DateRange
  /-- Year to digest of that year's bars. A year absent here has none. -/
  chunks : OrderedMap ℕ Digest
  materializedAt : ℕ

instance : DecidableEq (BenchmarkCacheHead Digest) := fun left right =>
  decidable_of_iff (left.basisGeneration = right.basisGeneration
      ∧ left.residentRanges = right.residentRanges ∧ left.chunks.entries = right.chunks.entries
      ∧ left.materializedAt = right.materializedAt) (by
    constructor
    · rintro ⟨hgeneration, hranges, hchunks, hat⟩
      have hsame := OrderedMap.ext hchunks
      cases left
      cases right
      simp_all
    · rintro rfl
      exact ⟨rfl, rfl, rfl, rfl⟩)

/-- The chunks a head names. -/
def BenchmarkCacheHead.referenced (head : BenchmarkCacheHead Digest) : List (ChunkKey Digest) :=
  head.chunks.entries

/-- What PostgreSQL holds of a series. -/
structure SeriesRows (Bars : Type) where
  basisGeneration : ℕ
  coverage : List DateRange
  /-- The bars of each year that has any. -/
  years : OrderedMap ℕ Bars

/-- A year of bars in Redis. -/
structure Chunk (Bars : Type) where
  bars : Bars
  /-- It carries the expiry of a stage. -/
  expires : Bool

/-- The keys of one series in Redis. -/
structure Projection (Bars Digest : Type) where
  /-- The only generation a head may be committed under. -/
  fence : Option ℕ
  head : Option (BenchmarkCacheHead Digest)
  chunks : ChunkKey Digest → Option (Chunk Bars)
  /-- Every chunk key written. -/
  registry : Finset (ChunkKey Digest)

/-- Nothing in Redis. -/
def Projection.empty : Projection Bars Digest := ⟨none, none, fun _ => none, ∅⟩

namespace Projection

variable (cache : Projection Bars Digest)

/-- One chunk of `STAGE_CHUNKS`: written when there is none, its expiry refreshed when it has one,
and left alone when it is committed. -/
def stageChunk (key : ChunkKey Digest) (bars : Bars) : Projection Bars Digest where
  fence := cache.fence
  head := cache.head
  chunks other := if other = key then (cache.chunks key).or (some ⟨bars, true⟩)
    else cache.chunks other
  registry := insert key cache.registry

/-- `STAGE_CHUNKS`. -/
def stageChunks (batch : List (ChunkKey Digest × Bars)) : Projection Bars Digest :=
  batch.foldl (fun cache chunk => cache.stageChunk chunk.1 chunk.2) cache

/-- The outcome of a publication. -/
inductive PublishOutcome where
  | committed | conflict | missingChunks | fenced
  deriving DecidableEq

/-- A head's chunks made permanent, and every other registered chunk removed. -/
def adopt (head : BenchmarkCacheHead Digest) : Projection Bars Digest where
  fence := cache.fence
  head := some head
  chunks key :=
    if key ∈ head.referenced then (cache.chunks key).map fun chunk => { chunk with expires := false }
    else if key ∈ cache.registry then none
    else cache.chunks key
  registry := head.referenced.toFinset

/-- `COMMIT_HEAD`. -/
def commitHead (expected : Option (BenchmarkCacheHead Digest)) (head : BenchmarkCacheHead Digest) :
    PublishOutcome × Projection Bars Digest :=
  if cache.fence ≠ some head.basisGeneration then (.fenced, cache)
  else if cache.head ≠ expected then (.conflict, cache)
  else if head.referenced.any fun key => (cache.chunks key).isNone then (.missingChunks, cache)
  else (.committed, cache.adopt head)

/-- The whole projection removed: its head, and every registered chunk. -/
def discard : Projection Bars Digest where
  fence := cache.fence
  head := none
  chunks key := if key ∈ cache.registry then none else cache.chunks key
  registry := ∅

/-- `FENCE_GENERATION`. -/
def fenceGeneration (generation : ℕ) : Projection Bars Digest :=
  let fenced := { cache with fence := some generation }
  match cache.head with
  | none => fenced
  | some head => if head.basisGeneration = generation then fenced else fenced.discard

/-- The head dropped; the chunks stay registered. -/
def invalidateManifest : Projection Bars Digest := { cache with head := none }

/-- A staged chunk that no commit adopted expires. -/
def expire (key : ChunkKey Digest) : Projection Bars Digest :=
  { cache with chunks := fun other =>
      if other = key then (cache.chunks key).filter fun chunk => !chunk.expires
      else cache.chunks other }

end Projection

/-! ### A publication -/

section Publication

variable (digestOf : Bars → Digest)

/-- The head of what PostgreSQL holds. -/
def headFor (rows : SeriesRows Bars) (materializedAt : ℕ) : BenchmarkCacheHead Digest where
  basisGeneration := rows.basisGeneration
  residentRanges := rows.coverage
  chunks := rows.years.mapValues digestOf
  materializedAt

/-- The years to stage: those whose digest is not held already. -/
def changedYears (rows : SeriesRows Bars) (held : OrderedMap ℕ Digest) :
    List (ChunkKey Digest × Bars) :=
  (rows.years.entries.filter fun year => decide (held.get? year.1 ≠ some (digestOf year.2))).map
    fun year => ((year.1, digestOf year.2), year.2)

/-- The digests a publication may reuse: those of the head it observed. -/
def reusable (reuse : Bool) (observed : Option (BenchmarkCacheHead Digest)) : OrderedMap ℕ Digest :=
  if reuse then observed.elim .empty (·.chunks) else .empty

end Publication

/-! ### What the scripts keep -/

section Scripts

variable {cache : Projection Bars Digest} {digestOf : Bars → Digest}
  {head : BenchmarkCacheHead Digest} {key : ChunkKey Digest} {chunk : Chunk Bars}

/-- Every chunk holds the bars its key names. -/
def Projection.Named (digestOf : Bars → Digest) (cache : Projection Bars Digest) : Prop :=
  ∀ key chunk, cache.chunks key = some chunk → digestOf chunk.bars = key.2

/-- Every chunk a head names is there, for good. -/
def Projection.Holds (cache : Projection Bars Digest) (head : BenchmarkCacheHead Digest) : Prop :=
  ∀ key ∈ head.referenced, ∃ chunk, cache.chunks key = some chunk ∧ chunk.expires = false

variable {expected : Option (BenchmarkCacheHead Digest)}

/-- What `COMMIT_HEAD` asks of the store, and what it makes of it. -/
theorem Projection.commitHead_committed
    {next : Projection Bars Digest} (h : cache.commitHead expected head = (.committed, next)) :
    cache.fence = some head.basisGeneration ∧ cache.head = expected
      ∧ (∀ key ∈ head.referenced, ∃ chunk, cache.chunks key = some chunk)
      ∧ next = cache.adopt head := by
  unfold commitHead at h
  split at h
  · cases h
  · next hfence =>
    split at h
    · cases h
    · next hhead =>
      split at h
      · cases h
      · next hpresent =>
        refine ⟨not_not.mp hfence, not_not.mp hhead, ?_, (Prod.mk.inj h).2.symm⟩
        intro key hkey
        cases hchunk : cache.chunks key with
        | some chunk => exact ⟨chunk, rfl⟩
        | none =>
          refine absurd (List.any_eq_true.mpr ⟨key, hkey, ?_⟩) hpresent
          rw [hchunk]
          rfl

/-- A commit of the fenced generation over the expected head, with every chunk there. -/
theorem Projection.commitHead_of
    (hfence : cache.fence = some head.basisGeneration) (hhead : cache.head = expected)
    (hpresent : ∀ key ∈ head.referenced, ∃ chunk, cache.chunks key = some chunk) :
    cache.commitHead expected head = (.committed, cache.adopt head) := by
  have hnone : ¬head.referenced.any fun key => (cache.chunks key).isNone := by
    intro hany
    obtain ⟨key, hkey, hmissing⟩ := List.any_eq_true.mp hany
    obtain ⟨chunk, hchunk⟩ := hpresent key hkey
    rw [hchunk] at hmissing
    cases hmissing
  rw [commitHead, if_neg (not_not.mpr hfence), if_neg (not_not.mpr hhead), if_neg hnone]

/-- A commit that refuses changes nothing. -/
theorem Projection.commitHead_refused (h : (cache.commitHead expected head).1 ≠ .committed) :
    (cache.commitHead expected head).2 = cache := by
  unfold commitHead at h ⊢
  split
  · rfl
  · next hfence =>
    rw [if_neg hfence] at h
    split
    · rfl
    · next hhead =>
      rw [if_neg hhead] at h
      split
      · rfl
      · next hpresent =>
        rw [if_neg hpresent] at h
        exact absurd rfl h

theorem Projection.Named.stageChunk (h : cache.Named digestOf) {bars : Bars}
    (hbars : digestOf bars = key.2) : (cache.stageChunk key bars).Named digestOf := by
  intro other chunk hchunk
  change (if other = key then (cache.chunks key).or (some ⟨bars, true⟩) else cache.chunks other)
    = some chunk at hchunk
  split at hchunk
  · next heq =>
    subst heq
    cases hstored : cache.chunks other with
    | some stored =>
      rw [hstored] at hchunk
      obtain rfl := Option.some.inj hchunk
      exact h other stored hstored
    | none =>
      rw [hstored] at hchunk
      obtain rfl := Option.some.inj hchunk
      exact hbars
  · exact h other chunk hchunk

/-- A chunk that is there stays as it is. -/
theorem Projection.stageChunk_chunks (hchunk : cache.chunks key = some chunk)
    (other : ChunkKey Digest) (bars : Bars) : (cache.stageChunk other bars).chunks key = some chunk := by
  show (if key = other then (cache.chunks other).or (some ⟨bars, true⟩) else cache.chunks key) = _
  split
  · next heq =>
    subst heq
    rw [hchunk]
    rfl
  · exact hchunk

/-- Staging touches the fence and the head of nothing, keeps every chunk, and adds its own. -/
theorem Projection.stageChunks_spec (cache : Projection Bars Digest)
    (batch : List (ChunkKey Digest × Bars)) :
    (cache.stageChunks batch).fence = cache.fence ∧ (cache.stageChunks batch).head = cache.head
      ∧ (∀ key chunk, cache.chunks key = some chunk →
        (cache.stageChunks batch).chunks key = some chunk)
      ∧ (∀ staged ∈ batch, ∃ chunk, (cache.stageChunks batch).chunks staged.1 = some chunk)
      ∧ (cache.Named digestOf → (∀ staged ∈ batch, digestOf staged.2 = staged.1.2) →
        (cache.stageChunks batch).Named digestOf) := by
  induction batch generalizing cache with
  | nil => exact ⟨rfl, rfl, fun _ _ h => h, fun _ hmem => (List.not_mem_nil hmem).elim, fun h _ => h⟩
  | cons staged rest ih =>
    obtain ⟨hfence, hhead, hkeeps, hadds, hnamed⟩ := ih (cache.stageChunk staged.1 staged.2)
    refine ⟨hfence, hhead, ?_, ?_, ?_⟩
    · intro key chunk hchunk
      exact hkeeps key chunk (stageChunk_chunks hchunk staged.1 staged.2)
    · intro other hother
      rcases List.mem_cons.mp hother with rfl | hother
      · have hstaged : ∃ chunk, (cache.stageChunk other.1 other.2).chunks other.1 = some chunk := by
          show ∃ chunk, (if other.1 = other.1 then (cache.chunks other.1).or _ else _) = some chunk
          rw [if_pos rfl]
          cases cache.chunks other.1 with
          | some chunk => exact ⟨chunk, rfl⟩
          | none => exact ⟨_, rfl⟩
        obtain ⟨chunk, hchunk⟩ := hstaged
        exact ⟨chunk, hkeeps _ chunk hchunk⟩
      · exact hadds other hother
    · intro h hstaged
      exact hnamed (h.stageChunk (hstaged staged List.mem_cons_self))
        fun other hother => hstaged other (List.mem_cons_of_mem _ hother)

theorem Projection.Named.adopt (h : cache.Named digestOf) (head : BenchmarkCacheHead Digest) :
    (cache.adopt head).Named digestOf := by
  intro key chunk hchunk
  change (if key ∈ head.referenced then _ else if key ∈ cache.registry then none
    else cache.chunks key) = some chunk at hchunk
  split at hchunk
  · obtain ⟨stored, hstored, rfl⟩ := Option.map_eq_some_iff.mp hchunk
    exact h key stored hstored
  · split at hchunk
    · cases hchunk
    · exact h key chunk hchunk

/-- An adopted head's chunks are permanent. -/
theorem Projection.holds_adopt
    (hpresent : ∀ key ∈ head.referenced, ∃ chunk, cache.chunks key = some chunk) :
    (cache.adopt head).Holds head := by
  intro key hkey
  obtain ⟨chunk, hchunk⟩ := hpresent key hkey
  refine ⟨{ chunk with expires := false }, ?_, rfl⟩
  show (if key ∈ head.referenced then (cache.chunks key).map _ else _) = _
  rw [if_pos hkey, hchunk]
  rfl

theorem Projection.Named.discard (h : cache.Named digestOf) : cache.discard.Named digestOf := by
  intro key chunk hchunk
  change (if key ∈ cache.registry then none else cache.chunks key) = some chunk at hchunk
  split at hchunk
  · cases hchunk
  · exact h key chunk hchunk

theorem Projection.Named.fenceGeneration (h : cache.Named digestOf) (generation : ℕ) :
    (cache.fenceGeneration generation).Named digestOf := by
  unfold Projection.fenceGeneration
  dsimp only
  split
  · exact h
  · split
    · exact h
    · exact Projection.Named.discard h

theorem Projection.fence_fenceGeneration (cache : Projection Bars Digest) (generation : ℕ) :
    (cache.fenceGeneration generation).fence = some generation := by
  unfold fenceGeneration
  dsimp only
  split
  · rfl
  · split <;> rfl

/-- A raised fence leaves a head of its own generation only, with its chunks. -/
theorem Projection.fenceGeneration_head {generation : ℕ}
    (h : (cache.fenceGeneration generation).head = some head) :
    head.basisGeneration = generation ∧ cache.head = some head
      ∧ (cache.fenceGeneration generation).chunks = cache.chunks := by
  unfold fenceGeneration at h ⊢
  dsimp only at h ⊢
  split at h
  · next hnone =>
    change cache.head = some head at h
    rw [hnone] at h
    cases h
  · next visible hvisible =>
    split at h
    · next hsame =>
      change cache.head = some head at h
      rw [hvisible] at h
      obtain rfl := Option.some.inj h
      simp only [hvisible]
      rw [if_pos hsame]
      exact ⟨hsame, trivial, rfl⟩
    · cases h

/-- A raised fence leaves a head of its generation as it was. -/
theorem Projection.fenceGeneration_of_head {generation : ℕ}
    (h : ∀ head ∈ cache.head, head.basisGeneration = generation) :
    cache.fenceGeneration generation = { cache with fence := some generation } := by
  unfold fenceGeneration
  dsimp only
  split
  · rfl
  · next head hhead => rw [if_pos (h head hhead)]

theorem Projection.Named.expire (h : cache.Named digestOf) (key : ChunkKey Digest) :
    (cache.expire key).Named digestOf := by
  intro other chunk hchunk
  change (if other = key then (cache.chunks key).filter _ else cache.chunks other)
    = some chunk at hchunk
  split at hchunk
  · next heq =>
    subst heq
    exact h other chunk (Option.filter_eq_some_iff.mp hchunk).1
  · exact h other chunk hchunk

/-- A permanent chunk does not expire. -/
theorem Projection.Holds.expire (h : cache.Holds head) (key : ChunkKey Digest) :
    (cache.expire key).Holds head := by
  intro other hother
  obtain ⟨chunk, hchunk, hpermanent⟩ := h other hother
  refine ⟨chunk, ?_, hpermanent⟩
  show (if other = key then (cache.chunks key).filter _ else cache.chunks other) = some chunk
  split
  · next heq =>
    subst heq
    rw [hchunk]
    simp [hpermanent]
  · exact hchunk

end Scripts

end FactorSage.BenchmarkCache

/-! ## The parties of a series -/

namespace FactorSage.BenchmarkCache

variable {Bars Digest : Type} [DecidableEq Digest]

/-! ### The parties -/

/-- Who holds the series write lock. -/
inductive LockHolder (Bars : Type) where
  /-- A replacement, what it is about to commit, and whether it has raised the fence. -/
  | replacing (next : SeriesRows Bars) (raised : Bool)
  | establishing

inductive Publisher (Bars Digest : Type) where
  | idle
  | observed (expected : Option (BenchmarkCacheHead Digest))
  /-- With the chunks it has still to stage. -/
  | staging (expected : Option (BenchmarkCacheHead Digest)) (head : BenchmarkCacheHead Digest)
      (rest : List (ChunkKey Digest × Bars))
  /-- About to drop the head: its snapshot had nothing to project. -/
  | dropping

inductive Reader (Bars Digest : Type) where
  | idle
  /-- With the head it read, what PostgreSQL held then, and the years read so far. -/
  | reading (head : BenchmarkCacheHead Digest) (then' : SeriesRows Bars) (years : List (ℕ × Bars))
  | done (head : BenchmarkCacheHead Digest) (then' : SeriesRows Bars) (years : List (ℕ × Bars))

/-- One series, in PostgreSQL, in Redis, and in the hands of its parties. -/
structure State (Bars Digest : Type) where
  rows : SeriesRows Bars
  /-- What PostgreSQL has ever held of it. -/
  past : List (SeriesRows Bars)
  lock : Option (LockHolder Bars)
  cache : Projection Bars Digest
  publishers : ℕ → Publisher Bars Digest
  readers : ℕ → Reader Bars Digest

/-- Chunks staged by one script call. -/
def stageBatch : ℕ := 8

/-- The `MGET` of some years a head names; nothing when a chunk has gone. -/
def mget (cache : Projection Bars Digest) (head : BenchmarkCacheHead Digest) :
    List ℕ → Option (List (ℕ × Bars))
  | [] => some []
  | year :: rest =>
    match (head.chunks.get? year).bind fun digest => cache.chunks (year, digest) with
    | none => none
    | some chunk => (mget cache head rest).map fun years => (year, chunk.bars) :: years

/-- Who takes a step. -/
inductive Act where
  | database | publisher (id : ℕ) | reader (id : ℕ) | redis

section System

variable (digestOf : Bars → Digest)

inductive Step : State Bars Digest → Act → State Bars Digest → Prop
  /-- A sync of the bars, in one transaction under the lock. -/
  | save {s} (next : SeriesRows Bars) (hlock : s.lock = none)
      (hgeneration : next.basisGeneration = s.rows.basisGeneration) :
      Step s .database { s with rows := next, past := next :: s.past }
  /-- A replacement takes the lock. -/
  | replace {s} (next : SeriesRows Bars) (hlock : s.lock = none)
      (hgeneration : next.basisGeneration = s.rows.basisGeneration + 1) :
      Step s .database { s with lock := some (.replacing next false) }
  /-- Last before its commit, it raises the fence. -/
  | raise {s} {next : SeriesRows Bars} {raised : Bool}
      (hlock : s.lock = some (.replacing next raised)) :
      Step s .database { s with
        lock := some (.replacing next true)
        cache := s.cache.fenceGeneration next.basisGeneration }
  | commitReplacement {s} {next : SeriesRows Bars}
      (hlock : s.lock = some (.replacing next true)) :
      Step s .database { s with rows := next, past := next :: s.past, lock := none }
  /-- A publisher takes the lock to set the fence to what is committed. -/
  | lockFence {s} (hlock : s.lock = none) :
      Step s .database { s with lock := some .establishing }
  | establish {s} (hlock : s.lock = some .establishing) :
      Step s .database
        { s with cache := s.cache.fenceGeneration s.rows.basisGeneration }
  /-- The lock's transaction ends without a change: it is done, or rolls back, whether or not it had
  raised the fence. -/
  | release {s} : Step s .database { s with lock := none }
  /-- An attempt begins with the head. -/
  | observe {s} (id : ℕ) :
      Step s (.publisher id) { s with
        publishers := Function.update s.publishers id (.observed s.cache.head) }
  /-- One repeatable read: the digests, and the bars of the years that changed. -/
  | snapshot {s} (id : ℕ) {expected : Option (BenchmarkCacheHead Digest)} (reuse : Bool)
      (materializedAt : ℕ) (hphase : s.publishers id = .observed expected)
      (hcoverage : s.rows.coverage ≠ []) :
      Step s (.publisher id) { s with
        publishers := Function.update s.publishers id
          (.staging expected (headFor digestOf s.rows materializedAt)
            (changedYears digestOf s.rows (reusable reuse expected))) }
  /-- Nothing durable to project: a head that was observed is to go. -/
  | uncovered {s} (id : ℕ) {observed : BenchmarkCacheHead Digest}
      (hphase : s.publishers id = .observed (some observed)) (hcoverage : s.rows.coverage = []) :
      Step s (.publisher id) { s with
        publishers := Function.update s.publishers id .dropping }
  | invalidate {s} (id : ℕ) (hphase : s.publishers id = .dropping) :
      Step s (.publisher id) { s with
        cache := s.cache.invalidateManifest
        publishers := Function.update s.publishers id .idle }
  | stage {s} (id : ℕ) {expected : Option (BenchmarkCacheHead Digest)}
      {head : BenchmarkCacheHead Digest} {rest : List (ChunkKey Digest × Bars)}
      (hphase : s.publishers id = .staging expected head rest) :
      Step s (.publisher id) { s with
        cache := s.cache.stageChunks (rest.take stageBatch)
        publishers := Function.update s.publishers id
          (.staging expected head (rest.drop stageBatch)) }
  | commit {s} (id : ℕ) {expected : Option (BenchmarkCacheHead Digest)}
      {head : BenchmarkCacheHead Digest} (hphase : s.publishers id = .staging expected head []) :
      Step s (.publisher id) { s with
        cache := (s.cache.commitHead expected head).2
        publishers := Function.update s.publishers id .idle }
  | abandon {s} (id : ℕ) :
      Step s (.publisher id) { s with publishers := Function.update s.publishers id .idle }
  | getHead {s} (id : ℕ) {head : BenchmarkCacheHead Digest} (hhead : s.cache.head = some head) :
      Step s (.reader id) { s with
        readers := Function.update s.readers id (.reading head s.rows []) }
  /-- One `MGET`, of any years. -/
  | fetch {s} (id : ℕ) {head : BenchmarkCacheHead Digest} {then' : SeriesRows Bars}
      {years fetched : List (ℕ × Bars)} (asked : List ℕ)
      (hphase : s.readers id = .reading head then' years)
      (hfetched : mget s.cache head asked = some fetched) :
      Step s (.reader id) { s with
        readers := Function.update s.readers id (.reading head then' (years ++ fetched)) }
  /-- A chunk has gone: the head moved on, and the read begins again. -/
  | moved {s} (id : ℕ) :
      Step s (.reader id) { s with readers := Function.update s.readers id .idle }
  | finish {s} (id : ℕ) {head : BenchmarkCacheHead Digest} {then' : SeriesRows Bars}
      {years : List (ℕ × Bars)} (hphase : s.readers id = .reading head then' years) :
      Step s (.reader id) { s with
        readers := Function.update s.readers id (.done head then' years) }
  /-- A stage no commit adopted. -/
  | expire {s} (key : ChunkKey Digest) : Step s .redis { s with cache := s.cache.expire key }
  | loseFence {s} : Step s .redis { s with cache := { s.cache with fence := none } }
  /-- Redis starts again with nothing. -/
  | flush {s} : Step s .redis { s with cache := .empty }

/-- The series from what PostgreSQL holds, with nothing in Redis and nobody at work. -/
def system (rows : SeriesRows Bars) : StepSystem (State Bars Digest) Act where
  start s := s = ⟨rows, [rows], none, .empty, fun _ => .idle, fun _ => .idle⟩
  step := Step digestOf

/-! ### The invariant -/

/-- A head of what PostgreSQL held once. -/
def PublishedFrom (rows : SeriesRows Bars) (head : BenchmarkCacheHead Digest) : Prop :=
  ∃ at', head = headFor digestOf rows at'

/-- The years read under a head are what its digests name. -/
def ReadUnder (head : BenchmarkCacheHead Digest) (years : List (ℕ × Bars)) : Prop :=
  ∀ year ∈ years, head.chunks.get? year.1 = some (digestOf year.2)

/-- What a publisher holds is of the past. -/
def PublisherSound (past : List (SeriesRows Bars)) : Publisher Bars Digest → Prop
  | .idle => True
  | .observed _ => True
  | .staging _ head rest => (∃ rows ∈ past, PublishedFrom digestOf rows head)
      ∧ ∀ staged ∈ rest, digestOf staged.2 = staged.1.2
  | .dropping => True

/-- What a reader holds is of the past, and of the generation committed when it read the head. -/
def ReaderSound (past : List (SeriesRows Bars)) : Reader Bars Digest → Prop
  | .idle => True
  | .reading head then' years => (∃ rows ∈ past, PublishedFrom digestOf rows head)
      ∧ head.basisGeneration = then'.basisGeneration ∧ then' ∈ past ∧ ReadUnder digestOf head years
  | .done head then' years => (∃ rows ∈ past, PublishedFrom digestOf rows head)
      ∧ head.basisGeneration = then'.basisGeneration ∧ then' ∈ past ∧ ReadUnder digestOf head years

/-- What the committed generation, the lock, the fence and the head say of one another. -/
structure Sound (s : State Bars Digest) : Prop where
  current : s.rows ∈ s.past
  committed : ∀ rows ∈ s.past, rows.basisGeneration ≤ s.rows.basisGeneration
  /-- The fence is never behind what is committed. -/
  fence : ∀ generation ∈ s.cache.fence, s.rows.basisGeneration ≤ generation
  head : ∀ head ∈ s.cache.head, head.basisGeneration = s.rows.basisGeneration
    ∧ (∃ rows ∈ s.past, PublishedFrom digestOf rows head) ∧ s.cache.Holds head
  replacing : ∀ next raised, s.lock = some (.replacing next raised) →
    next.basisGeneration = s.rows.basisGeneration + 1
  /-- Between the fence raised and the commit nothing is visible. -/
  raised : ∀ next, s.lock = some (.replacing next true) →
    s.cache.head = none ∧ ∀ generation ∈ s.cache.fence, generation = next.basisGeneration
  named : s.cache.Named digestOf
  publishers : ∀ id, PublisherSound digestOf s.past (s.publishers id)
  readers : ∀ id, ReaderSound digestOf s.past (s.readers id)

variable {digestOf}

section Sound

variable {past later : List (SeriesRows Bars)} {s : State Bars Digest}

section

omit [DecidableEq Digest]

theorem PublisherSound.mono {publisher : Publisher Bars Digest}
    (h : PublisherSound digestOf past publisher) (hpast : past ⊆ later) :
    PublisherSound digestOf later publisher := by
  cases publisher with
  | idle => trivial
  | observed expected => trivial
  | staging expected head rest =>
    obtain ⟨⟨rows, hrows, hhead⟩, hrest⟩ := h
    exact ⟨⟨rows, hpast hrows, hhead⟩, hrest⟩
  | dropping => trivial

theorem ReaderSound.mono {reader : Reader Bars Digest} (h : ReaderSound digestOf past reader)
    (hpast : past ⊆ later) : ReaderSound digestOf later reader := by
  cases reader with
  | idle => trivial
  | reading head then' years =>
    obtain ⟨⟨rows, hrows, hhead⟩, hgeneration, hthen, hyears⟩ := h
    exact ⟨⟨rows, hpast hrows, hhead⟩, hgeneration, hpast hthen, hyears⟩
  | done head then' years =>
    obtain ⟨⟨rows, hrows, hhead⟩, hgeneration, hthen, hyears⟩ := h
    exact ⟨⟨rows, hpast hrows, hhead⟩, hgeneration, hpast hthen, hyears⟩

/-- A publisher moves on. -/
theorem Sound.publisher (h : Sound digestOf s) (id : ℕ) {publisher : Publisher Bars Digest}
    (hpublisher : PublisherSound digestOf s.past publisher) :
    Sound digestOf { s with publishers := Function.update s.publishers id publisher } where
  __ := h
  publishers other := by
    by_cases hother : other = id
    · subst hother
      simpa using hpublisher
    · simpa [hother] using h.publishers other

/-- A reader moves on. -/
theorem Sound.reader (h : Sound digestOf s) (id : ℕ) {reader : Reader Bars Digest}
    (hreader : ReaderSound digestOf s.past reader) :
    Sound digestOf { s with readers := Function.update s.readers id reader } where
  __ := h
  readers other := by
    by_cases hother : other = id
    · subst hother
      simpa using hreader
    · simpa [hother] using h.readers other

/-- A lock that raised no fence. -/
theorem Sound.relock (h : Sound digestOf s) {lock : Option (LockHolder Bars)}
    (hreplacing : ∀ next raised, lock = some (.replacing next raised) →
      raised = false ∧ next.basisGeneration = s.rows.basisGeneration + 1) :
    Sound digestOf { s with lock } where
  __ := h
  replacing next raised hlock := (hreplacing next raised hlock).2
  raised next hlock := by
    obtain ⟨hraised, -⟩ := hreplacing next true hlock
    cases hraised

/-- A cache that shows no more than before: the same head, or none. -/
theorem Sound.hide (h : Sound digestOf s) {cache : Projection Bars Digest}
    (hfence : cache.fence = s.cache.fence ∨ cache.fence = none)
    (hhead : ∀ head ∈ cache.head, s.cache.head = some head ∧ cache.Holds head)
    (hnamed : cache.Named digestOf) : Sound digestOf { s with cache } where
  __ := h
  fence generation hgeneration := by
    rcases hfence with hsame | hnone
    · exact h.fence generation (hsame ▸ hgeneration)
    · rw [show cache.fence = none from hnone] at hgeneration
      cases hgeneration
  head head hmem := by
    obtain ⟨hvisible, hholds⟩ := hhead head hmem
    obtain ⟨hgeneration, hpublished, -⟩ := h.head head hvisible
    exact ⟨hgeneration, hpublished, hholds⟩
  raised next hlock := by
    obtain ⟨hnone, hfences⟩ := h.raised next hlock
    constructor
    · show cache.head = none
      cases hvisible : cache.head with
      | none => rfl
      | some head =>
        have hbefore := (hhead head hvisible).1
        rw [hnone] at hbefore
        cases hbefore
    · intro generation hgeneration
      rcases hfence with hsame | hlost
      · exact hfences generation (hsame ▸ hgeneration)
      · rw [show cache.fence = none from hlost] at hgeneration
        cases hgeneration
  named := hnamed

theorem Sound.save (h : Sound digestOf s) {next : SeriesRows Bars} (hlock : s.lock = none)
    (hgeneration : next.basisGeneration = s.rows.basisGeneration) :
    Sound digestOf { s with rows := next, past := next :: s.past } where
  current := List.mem_cons_self
  committed rows hrows := by
    show rows.basisGeneration ≤ next.basisGeneration
    rw [hgeneration]
    rcases List.mem_cons.mp hrows with rfl | hrows
    · exact hgeneration.le
    · exact h.committed rows hrows
  fence generation hfence := by
    show next.basisGeneration ≤ generation
    rw [hgeneration]
    exact h.fence generation hfence
  head head hhead := by
    obtain ⟨hsame, ⟨rows, hrows, hpublished⟩, hholds⟩ := h.head head hhead
    exact ⟨hsame.trans hgeneration.symm, ⟨rows, List.mem_cons_of_mem _ hrows, hpublished⟩, hholds⟩
  replacing other raised hother := by
    rw [show s.lock = some _ from hother] at hlock
    cases hlock
  raised other hother := by
    rw [show s.lock = some _ from hother] at hlock
    cases hlock
  named := h.named
  publishers id := (h.publishers id).mono (List.subset_cons_self _ _)
  readers id := (h.readers id).mono (List.subset_cons_self _ _)

end

/-- The fence of the next generation leaves nothing visible. -/
theorem Sound.raise (h : Sound digestOf s) {next : SeriesRows Bars} {raised : Bool}
    (hlock : s.lock = some (.replacing next raised)) :
    Sound digestOf { s with
      lock := some (.replacing next true)
      cache := s.cache.fenceGeneration next.basisGeneration } := by
  have hnext := h.replacing next raised hlock
  have hfence := s.cache.fence_fenceGeneration next.basisGeneration
  have hnone : (s.cache.fenceGeneration next.basisGeneration).head = none := by
    cases hhead : (s.cache.fenceGeneration next.basisGeneration).head with
    | none => rfl
    | some head =>
      -- a visible head is of the generation still committed
      obtain ⟨hgeneration, hvisible, -⟩ := Projection.fenceGeneration_head hhead
      have hcommitted := (h.head head hvisible).1
      rw [hgeneration, hnext] at hcommitted
      exact absurd hcommitted (Nat.succ_ne_self _)
  refine ⟨h.current, h.committed, ?_, ?_, ?_, ?_, h.named.fenceGeneration _, h.publishers,
    h.readers⟩
  · intro generation hgeneration
    change generation ∈ (s.cache.fenceGeneration next.basisGeneration).fence at hgeneration
    rw [hfence] at hgeneration
    obtain rfl := Option.some.inj hgeneration
    show s.rows.basisGeneration ≤ next.basisGeneration
    rw [hnext]
    exact Nat.le_succ _
  · intro head hhead
    rw [show (s.cache.fenceGeneration next.basisGeneration).head = some head from hhead] at hnone
    cases hnone
  · intro other raised' hother
    cases hother
    exact hnext
  · intro other hother
    cases hother
    refine ⟨hnone, fun generation hgeneration => ?_⟩
    rw [show (s.cache.fenceGeneration next.basisGeneration).fence = some generation
      from hgeneration] at hfence
    exact Option.some.inj hfence

omit [DecidableEq Digest] in
theorem Sound.commitReplacement (h : Sound digestOf s) {next : SeriesRows Bars}
    (hlock : s.lock = some (.replacing next true)) :
    Sound digestOf { s with rows := next, past := next :: s.past, lock := none } := by
  have hnext := h.replacing next true hlock
  obtain ⟨hnone, hfence⟩ := h.raised next hlock
  refine ⟨List.mem_cons_self, ?_, ?_, ?_, ?_, ?_, h.named, ?_, ?_⟩
  · intro rows hrows
    show rows.basisGeneration ≤ next.basisGeneration
    rcases List.mem_cons.mp hrows with rfl | hrows
    · exact le_rfl
    · rw [hnext]
      exact (h.committed rows hrows).trans (Nat.le_succ _)
  · intro generation hgeneration
    exact (hfence generation hgeneration).ge
  · intro head hhead
    rw [show s.cache.head = some head from hhead] at hnone
    cases hnone
  · intro other raised hother
    cases hother
  · intro other hother
    cases hother
  · exact fun id => (h.publishers id).mono (List.subset_cons_self _ _)
  · exact fun id => (h.readers id).mono (List.subset_cons_self _ _)

/-- The fence of the committed generation hides nothing. -/
theorem Sound.establish (h : Sound digestOf s) (hlock : s.lock = some .establishing) :
    Sound digestOf { s with cache := s.cache.fenceGeneration s.rows.basisGeneration } := by
  rw [Projection.fenceGeneration_of_head fun head hhead => (h.head head hhead).1]
  refine ⟨h.current, h.committed, ?_, h.head, h.replacing, ?_, h.named, h.publishers, h.readers⟩
  · intro generation hgeneration
    exact (Option.some.inj hgeneration).le
  · intro next hnext
    rw [show s.lock = some _ from hnext] at hlock
    cases hlock

variable {head : BenchmarkCacheHead Digest}

theorem Sound.stage (h : Sound digestOf s) (id : ℕ)
    {expected : Option (BenchmarkCacheHead Digest)}
    {rest : List (ChunkKey Digest × Bars)} (hphase : s.publishers id = .staging expected head rest) :
    Sound digestOf { s with
      cache := s.cache.stageChunks (rest.take stageBatch)
      publishers := Function.update s.publishers id
        (.staging expected head (rest.drop stageBatch)) } := by
  have hpublisher := h.publishers id
  rw [hphase] at hpublisher
  obtain ⟨hpublished, hrest⟩ := hpublisher
  obtain ⟨hfence, hhead, hkeeps, -, hnamed⟩ :=
    @Projection.stageChunks_spec _ _ _ digestOf s.cache (rest.take stageBatch)
  have hstaged : Sound digestOf { s with cache := s.cache.stageChunks (rest.take stageBatch) } := by
    refine h.hide (.inl hfence) ?_ (hnamed h.named fun staged hmem =>
      hrest staged (List.mem_of_mem_take hmem))
    intro visible hvisible
    rw [hhead] at hvisible
    refine ⟨hvisible, ?_⟩
    intro key hkey
    obtain ⟨chunk, hchunk, hpermanent⟩ := (h.head visible hvisible).2.2 key hkey
    exact ⟨chunk, hkeeps key chunk hchunk, hpermanent⟩
  exact hstaged.publisher id ⟨hpublished, fun staged hmem => hrest staged (List.mem_of_mem_drop hmem)⟩

/-- **A commit shows what is committed**: a head of an older generation is refused by the fence, and
one of the generation a replacement is about to commit cannot have been read. -/
theorem Sound.commit (h : Sound digestOf s) (id : ℕ)
    {expected : Option (BenchmarkCacheHead Digest)}
    (hphase : s.publishers id = .staging expected head []) :
    Sound digestOf { s with
      cache := (s.cache.commitHead expected head).2
      publishers := Function.update s.publishers id .idle } := by
  have hpublisher := h.publishers id
  rw [hphase] at hpublisher
  obtain ⟨⟨rows, hrows, hpublished⟩, -⟩ := hpublisher
  have hle : head.basisGeneration ≤ s.rows.basisGeneration := by
    obtain ⟨_, rfl⟩ := hpublished
    exact h.committed rows hrows
  cases hcommit : s.cache.commitHead expected head with
  | mk outcome next =>
    by_cases houtcome : outcome = .committed
    · subst houtcome
      obtain ⟨hfence, -, hpresent, rfl⟩ := Projection.commitHead_committed hcommit
      have hsame : head.basisGeneration = s.rows.basisGeneration :=
        le_antisymm hle (h.fence _ hfence)
      have hcommitted : Sound digestOf { s with cache := s.cache.adopt head } := by
        refine ⟨h.current, h.committed, h.fence, ?_, h.replacing, ?_, h.named.adopt head,
          h.publishers, h.readers⟩
        · intro visible hvisible
          obtain rfl := Option.some.inj hvisible
          exact ⟨hsame, ⟨rows, hrows, hpublished⟩, Projection.holds_adopt hpresent⟩
        · intro other hlock
          have hraised := (h.raised other hlock).2 _ hfence
          rw [h.replacing other true hlock] at hraised
          omega
      exact hcommitted.publisher id trivial
    · have hunchanged := Projection.commitHead_refused (by rw [hcommit]; exact houtcome)
      rw [hcommit] at hunchanged
      change next = s.cache at hunchanged
      subst hunchanged
      exact h.publisher id trivial

theorem digest_of_mem_changedYears {rows : SeriesRows Bars} {held : OrderedMap ℕ Digest}
    {staged : ChunkKey Digest × Bars} (h : staged ∈ changedYears digestOf rows held) :
    digestOf staged.2 = staged.1.2 := by
  obtain ⟨year, -, rfl⟩ := List.mem_map.mp h
  rfl

omit [DecidableEq Digest] in
/-- What an `MGET` returns is what the head's digests name. -/
theorem readUnder_mget {cache : Projection Bars Digest} (hnamed : cache.Named digestOf)
    {asked : List ℕ} {fetched : List (ℕ × Bars)} (h : mget cache head asked = some fetched) :
    ReadUnder digestOf head fetched ∧ fetched.map Prod.fst = asked := by
  induction asked generalizing fetched with
  | nil =>
    obtain rfl := Option.some.inj h
    exact ⟨fun _ hmem => (List.not_mem_nil hmem).elim, rfl⟩
  | cons year rest ih =>
    unfold mget at h
    split at h
    · cases h
    · next chunk hchunk =>
      obtain ⟨years, hyears, rfl⟩ := Option.map_eq_some_iff.mp h
      obtain ⟨hread, hmap⟩ := ih hyears
      obtain ⟨digest, hdigest, hstored⟩ := Option.bind_eq_some_iff.mp hchunk
      constructor
      · intro other hother
        rcases List.mem_cons.mp hother with rfl | hother
        · show head.chunks.get? year = some (digestOf chunk.bars)
          rw [hdigest, hnamed _ _ hstored]
        · exact hread other hother
      · rw [List.map_cons, hmap]

/-- **Every step keeps the invariant.** -/
theorem Sound.step (h : Sound digestOf s) {act : Act} {s' : State Bars Digest}
    (hstep : Step digestOf s act s') : Sound digestOf s' := by
  -- the store's steps first, then the publishers', the readers', and what the cache forgets
  cases hstep with
  | save next hlock hgeneration => exact h.save hlock hgeneration
  | replace next hlock hgeneration =>
    apply h.relock
    intro other raised hother
    cases hother
    exact ⟨rfl, hgeneration⟩
  | raise hlock => exact h.raise hlock
  | commitReplacement hlock => exact h.commitReplacement hlock
  | lockFence hlock =>
    apply h.relock
    intro other raised hother
    cases hother
  | establish hlock => exact h.establish hlock
  | release =>
    apply h.relock
    intro other raised hother
    cases hother
  | observe id => exact h.publisher id trivial
  | snapshot id reuse materializedAt hphase hcoverage =>
    refine h.publisher id ⟨⟨s.rows, h.current, materializedAt, rfl⟩, ?_⟩
    exact fun staged hmem => digest_of_mem_changedYears hmem
  | uncovered id hphase hcoverage => exact h.publisher id trivial
  | invalidate id hphase =>
    have hhidden : Sound digestOf { s with cache := s.cache.invalidateManifest } := by
      refine h.hide (.inl rfl) ?_ h.named
      intro head hhead
      cases hhead
    exact hhidden.publisher id trivial
  | stage id hphase => exact h.stage id hphase
  | commit id hphase => exact h.commit id hphase
  | abandon id => exact h.publisher id trivial
  | getHead id hhead =>
    obtain ⟨hgeneration, hpublished, -⟩ := h.head _ hhead
    exact h.reader id ⟨hpublished, hgeneration, h.current, fun _ hmem => (List.not_mem_nil hmem).elim⟩
  | fetch id asked hphase hfetched =>
    have hreader := h.readers id
    rw [hphase] at hreader
    obtain ⟨hpublished, hgeneration, hthen, hyears⟩ := hreader
    refine h.reader id ⟨hpublished, hgeneration, hthen, ?_⟩
    intro year hyear
    rcases List.mem_append.mp hyear with hyear | hyear
    · exact hyears year hyear
    · exact (readUnder_mget h.named hfetched).1 year hyear
  | moved id => exact h.reader id trivial
  | finish id hphase =>
    have hreader := h.readers id
    rw [hphase] at hreader
    exact h.reader id hreader
  | expire key =>
    refine h.hide (.inl rfl) ?_ (h.named.expire key)
    intro head hhead
    exact ⟨hhead, (h.head head hhead).2.2.expire key⟩
  | loseFence =>
    refine h.hide (.inr rfl) ?_ h.named
    intro head hhead
    exact ⟨hhead, (h.head head hhead).2.2⟩
  | flush =>
    refine h.hide (.inr rfl) ?_ ?_
    · intro head hhead
      cases hhead
    · intro key chunk hchunk
      cases hchunk

/-- **The invariant holds of every reachable state.** -/
theorem sound_of_reachable {rows : SeriesRows Bars} (hs : (system digestOf rows).Reachable s) :
    Sound digestOf s := by
  refine StepSystem.Inductive.reachable ⟨?_, fun _ _ _ h hstep => h.step hstep⟩ hs
  rintro _ rfl
  refine ⟨List.mem_singleton_self rows, ?_, ?_, ?_, ?_, ?_, ?_, fun _ => trivial, fun _ => trivial⟩
  · intro other hother
    rw [List.mem_singleton.mp hother]
  · intro generation hgeneration
    cases hgeneration
  · intro head hhead
    cases hhead
  · intro next raised hlock
    cases hlock
  · intro next hlock
    cases hlock
  · intro key chunk hchunk
    cases hchunk

end Sound

end System

end FactorSage.BenchmarkCache

/-! ## What a published series shows -/

namespace FactorSage.BenchmarkCache

variable {Bars Digest : Type} [DecidableEq Digest] {digestOf : Bars → Digest}

/-! ### Reading under a head -/

section Reading

variable {cache : Projection Bars Digest} {rows : SeriesRows Bars} {at' : ℕ}

section

omit [DecidableEq Digest]

theorem get?_headFor (year : ℕ) :
    (headFor digestOf rows at').chunks.get? year = (rows.years.get? year).map digestOf :=
  OrderedMap.get?_mapValues rows.years digestOf year

theorem mem_referenced_headFor {key : ChunkKey Digest} :
    key ∈ (headFor digestOf rows at').referenced
      ↔ ∃ bars, rows.years.get? key.1 = some bars ∧ digestOf bars = key.2 := by
  show key ∈ (headFor digestOf rows at').chunks.entries ↔ _
  rw [show key = (key.1, key.2) from rfl, OrderedMap.mem_entries_iff, get?_headFor,
    Option.map_eq_some_iff]

/-- A chunk that a head names holds the bars the head was made from. -/
theorem Projection.Holds.bars (hdigest : Function.Injective digestOf)
    (h : cache.Holds (headFor digestOf rows at')) (hnamed : cache.Named digestOf) {year : ℕ}
    {bars : Bars} (hbars : rows.years.get? year = some bars) :
    cache.chunks (year, digestOf bars) = some ⟨bars, false⟩ := by
  obtain ⟨⟨stored, expires⟩, hchunk, hpermanent⟩ :=
    h (year, digestOf bars) (mem_referenced_headFor.mpr ⟨bars, hbars, rfl⟩)
  obtain rfl : expires = false := hpermanent
  obtain rfl : stored = bars := hdigest (hnamed _ _ hchunk)
  exact hchunk

end

end Reading

/-! ### A publication that nothing disturbs -/

/-- The chunks of a publication, staged a batch at a time. -/
def Projection.stageAll (cache : Projection Bars Digest)
    (rest : List (ChunkKey Digest × Bars)) : Projection Bars Digest :=
  if _ : rest = [] then cache
  else (cache.stageChunks (rest.take stageBatch)).stageAll (rest.drop stageBatch)
termination_by rest.length
decreasing_by
  have hpositive : 0 < rest.length := List.length_pos_iff.mpr (by assumption)
  simp only [List.length_drop, stageBatch]
  omega

/-- One attempt of `publishWithinLease`, with nobody else at work: the head observed, the snapshot
read, the fence set to what is committed when it is not, the changed years staged, and the head
committed. -/
def publishAttempt (digestOf : Bars → Digest) (reuse : Bool) (rows : SeriesRows Bars)
    (materializedAt : ℕ) (cache : Projection Bars Digest) :
    Projection.PublishOutcome × Projection Bars Digest :=
  let observed := cache.head
  let fenced := if cache.fence = some rows.basisGeneration then cache
    else cache.fenceGeneration rows.basisGeneration
  (fenced.stageAll (changedYears digestOf rows (reusable reuse observed))).commitHead observed
    (headFor digestOf rows materializedAt)

section Attempt

variable {start : SeriesRows Bars} {s : State Bars Digest}

theorem Projection.stageAll_eq (cache : Projection Bars Digest)
    (rest : List (ChunkKey Digest × Bars)) : cache.stageAll rest = cache.stageChunks rest := by
  induction cache, rest using Projection.stageAll.induct with
  | case1 cache =>
    rw [stageAll, dif_pos rfl]
    rfl
  | case2 cache rest hrest ih =>
    rw [stageAll, dif_neg hrest, ih, stageChunks, stageChunks, ← List.foldl_append,
      List.take_append_drop]
    rfl

/-- The fence of an attempt is the committed generation, and its chunks and head are untouched. -/
theorem Sound.fenced (h : Sound digestOf s) :
    (if s.cache.fence = some s.rows.basisGeneration then s.cache
      else s.cache.fenceGeneration s.rows.basisGeneration)
    = { s.cache with fence := some s.rows.basisGeneration } := by
  split
  · next hfence => rw [← hfence]
  · exact Projection.fenceGeneration_of_head fun head hhead => (h.head head hhead).1

/-- Every chunk the new head names is there once the changed years are staged: the others are those
of the head that was observed. -/
theorem Sound.staged (h : Sound digestOf s) (reuse : Bool) (at' : ℕ) (fence : Option ℕ)
    {key : ChunkKey Digest} (hkey : key ∈ (headFor digestOf s.rows at').referenced) :
    ∃ chunk, (Projection.stageChunks { s.cache with fence }
      (changedYears digestOf s.rows (reusable reuse s.cache.head))).chunks key = some chunk := by
  obtain ⟨-, -, hkeeps, hadds, -⟩ := @Projection.stageChunks_spec _ _ _ digestOf
    { s.cache with fence } (changedYears digestOf s.rows (reusable reuse s.cache.head))
  obtain ⟨bars, hbars, hdigest⟩ := mem_referenced_headFor.mp hkey
  by_cases hheld : (reusable reuse s.cache.head).get? key.1 = some key.2
  · -- a reused year: the observed head holds it
    have hobserved : ∃ head, s.cache.head = some head ∧ head.chunks.get? key.1 = some key.2 := by
      unfold reusable at hheld
      split at hheld
      · cases hhead : s.cache.head with
        | none =>
          rw [hhead] at hheld
          cases hheld
        | some head =>
          rw [hhead] at hheld
          exact ⟨head, rfl, hheld⟩
      · cases hheld
    obtain ⟨head, hhead, hnames⟩ := hobserved
    obtain ⟨chunk, hchunk, -⟩ :=
      (h.head head hhead).2.2 key (OrderedMap.mem_entries_iff.mpr hnames)
    exact ⟨chunk, hkeeps key chunk hchunk⟩
  · have hchanged : (key, bars) ∈ changedYears digestOf s.rows (reusable reuse s.cache.head) := by
      refine List.mem_map.mpr ⟨(key.1, bars), List.mem_filter.mpr
        ⟨OrderedMap.mem_entries_iff.mpr hbars, decide_eq_true ?_⟩, ?_⟩
      · show (reusable reuse s.cache.head).get? key.1 ≠ some (digestOf bars)
        rwa [hdigest]
      · show ((key.1, digestOf bars), bars) = (key, bars)
        rw [hdigest]
    exact hadds (key, bars) hchanged

/-- An attempt commits, and shows the head of what is committed. -/
theorem Sound.publishAttempt (h : Sound digestOf s) (reuse : Bool) (at' : ℕ) :
    (publishAttempt digestOf reuse s.rows at' s.cache).1 = .committed
      ∧ (publishAttempt digestOf reuse s.rows at' s.cache).2.head
        = some (headFor digestOf s.rows at') := by
  unfold BenchmarkCache.publishAttempt
  dsimp only
  rw [h.fenced, Projection.stageAll_eq]
  obtain ⟨hfence, hhead, -⟩ := @Projection.stageChunks_spec _ _ _ digestOf
    { s.cache with fence := some s.rows.basisGeneration }
    (changedYears digestOf s.rows (reusable reuse s.cache.head))
  rw [Projection.commitHead_of hfence hhead fun key hkey => h.staged reuse at' _ hkey]
  exact ⟨rfl, rfl⟩

/-- Two years under the third generation. -/
def twoYears : SeriesRows ℕ where
  basisGeneration := 3
  coverage := [⟨lastCalendarDay, lastCalendarDay⟩]
  years := (OrderedMap.empty.set 2024 71).set 2025 90

/-- Nobody has published them. -/
def unpublished : State ℕ ℕ := ⟨twoYears, [twoYears], none, .empty, fun _ => .idle, fun _ => .idle⟩

/-- Published once, as of the fifth instant. -/
def published : State ℕ ℕ := { unpublished with
  cache := (publishAttempt id true twoYears 5 .empty).2
  publishers := Function.update unpublished.publishers 0 .idle }

end Attempt

/-! ### What is visible, and what is read -/

section Reachable

variable {start : SeriesRows Bars} {s : State Bars Digest}

end Reachable

end FactorSage.BenchmarkCache
