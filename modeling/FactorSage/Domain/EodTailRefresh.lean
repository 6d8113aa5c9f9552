import Mathlib.Tactic.Linarith
import Mathlib.Data.Int.Log
import Mathlib.Data.List.Chain
import Mathlib.Data.Rat.Floor

/-!
# Refreshing the end-of-day tail

Whether a security's recent tail needs a provider read for a session is decided at every poll from
what is stored: the instant the newest read was issued, the date it asked for and the newest bar.
The back-off is not stored; it is read off the last read's distance from the session's finalization.

A run is a list of polls, at any times, whose reads may ask for any dates. Behind a read that was
issued after the session became final and asked for it, a poll requests another only at twice that
distance (`ReadFrom.spaced`), so as long as reads ask for the session they are few
(`tailRefresh_bounded`). One that was issued after finalization over a range fixed before it does
not ask for the session: the next poll requests another at once, and the spacing starts afresh.
-/

namespace FactorSage.EodFinality

/-- What the durable record says about a security's recent tail. -/
structure EodTailState where
  latestBar : Option ℤ
  /-- When the newest leading-edge read was issued; absent where no instant can be read. -/
  lastTailSyncAt : Option ℤ
  /-- The newest date that read asked for. -/
  tailDate : Option ℤ
  deriving DecidableEq

structure FinalizedSession where
  session : ℤ
  finalizedAt : ℤ

inductive SkipReason
  | UP_TO_DATE
  | RECENTLY_ASKED
  | SESSION_NOT_PUBLISHED
  deriving DecidableEq

inductive RefreshReason
  | NEVER_SYNCED
  | SESSION_MISSING
  | SESSION_UNVERIFIED
  deriving DecidableEq

inductive EodTailDecision
  | SKIP (reason : SkipReason)
  | REFRESH (reason : RefreshReason)
  deriving DecidableEq

section Decision

variable (expected : FinalizedSession) (retryMs giveUpMs : ℚ)

/-- The last read was issued after the session became final, and asked for it. -/
def readAfterFinal (state : EodTailState) (lastSync : ℤ) : Bool :=
  expected.finalizedAt ≤ lastSync && state.tailDate.all fun tail => expected.session ≤ tail

def holdsSession (state : EodTailState) : Bool :=
  state.latestBar.any fun bar => expected.session ≤ bar

def decideEodTailRefresh (state : EodTailState) (now : ℤ) : EodTailDecision :=
  match state.lastTailSyncAt with
  | none => .REFRESH .NEVER_SYNCED
  | some lastSync =>
    if readAfterFinal expected state lastSync = false then
      .REFRESH (if holdsSession expected state then .SESSION_UNVERIFIED else .SESSION_MISSING)
    else if holdsSession expected state then .SKIP .UP_TO_DATE
    else if giveUpMs ≤ ((now - expected.finalizedAt : ℤ) : ℚ) then .SKIP .SESSION_NOT_PUBLISHED
    else if ((now - lastSync : ℤ) : ℚ)
        < max retryMs ((lastSync - expected.finalizedAt : ℤ) : ℚ) then .SKIP .RECENTLY_ASKED
    else .REFRESH .SESSION_MISSING

end Decision

/-! ### Polling -/

/-- One poll, and what a read it requests records: the newest date the read asked for and the newest
bar stored afterwards, whatever the provider answered. -/
structure Poll where
  now : ℤ
  tailDate : ℤ
  latestBar : Option ℤ

section Run

variable (expected : FinalizedSession) (retryMs giveUpMs : ℚ)

def Poll.requests (poll : Poll) (state : EodTailState) : Bool :=
  match decideEodTailRefresh expected retryMs giveUpMs state poll.now with
  | .REFRESH _ => true
  | .SKIP _ => false

/-- The record after a poll. -/
def Poll.next (poll : Poll) (state : EodTailState) : EodTailState :=
  if poll.requests expected retryMs giveUpMs state then
    ⟨poll.latestBar, some poll.now, some poll.tailDate⟩
  else state

def stateAfter (state : EodTailState) (polls : List Poll) : EodTailState :=
  polls.foldl (fun state poll => poll.next expected retryMs giveUpMs state) state

/-- The polls that request a read. -/
def readsOf : EodTailState → List Poll → List Poll
  | _, [] => []
  | state, poll :: rest =>
    if poll.requests expected retryMs giveUpMs state then
      poll :: readsOf (poll.next expected retryMs giveUpMs state) rest
    else readsOf (poll.next expected retryMs giveUpMs state) rest

/-- The reads requested after finalization. -/
def readsAfter (state : EodTailState) (polls : List Poll) : List Poll :=
  (readsOf expected retryMs giveUpMs state polls).filter fun poll =>
    expected.finalizedAt ≤ poll.now

/-- How long after finalization a read was requested. -/
def Poll.offset (poll : Poll) : ℚ := ((poll.now - expected.finalizedAt : ℤ) : ℚ)

/-- Whether a read asked for the session. -/
def Poll.asks (poll : Poll) : Bool := expected.session ≤ poll.tailDate

/-! ### The back-off -/

/-- The last read was issued at a distance behind finalization, and asked for the session. -/
structure ReadFrom (state : EodTailState) (read : Poll) : Prop where
  synced : state.lastTailSyncAt = some read.now
  tailDate : state.tailDate = some read.tailDate
  final : expected.finalizedAt ≤ read.now
  asked : read.asks expected = true

/-- The back-off of a further read. -/
def Spaced (earlier later : ℚ) : Prop := max (2 * earlier) (earlier + retryMs) ≤ later

/-- What a read that asked for the session leaves for the next: its back-off, before the give-up
bound. -/
def Follows (read next : Poll) : Prop :=
  read.asks expected = true →
    Spaced retryMs (read.offset expected) (next.offset expected)
      ∧ next.offset expected < giveUpMs

variable {expected retryMs giveUpMs} {state : EodTailState} {poll read : Poll}

theorem ReadFrom.readAfterFinal (h : ReadFrom expected state read) :
    readAfterFinal expected state read.now = true := by
  rw [EodFinality.readAfterFinal, Bool.and_eq_true, h.tailDate]
  exact ⟨decide_eq_true h.final, h.asked⟩

/-- **The spacing.** Behind a read after finalization that asked for the session, another is
requested only before the give-up bound, and at twice the distance at least. -/
theorem ReadFrom.spaced (h : ReadFrom expected state read)
    (hrequests : poll.requests expected retryMs giveUpMs state = true) :
    Spaced retryMs (read.offset expected) (poll.offset expected)
      ∧ poll.offset expected < giveUpMs := by
  unfold Poll.requests decideEodTailRefresh at hrequests
  rw [h.synced] at hrequests
  dsimp only at hrequests
  rw [h.readAfterFinal, if_neg (by simp)] at hrequests
  split at hrequests
  · next reason hdecision =>
    split at hdecision
    · exact nomatch hdecision
    · split at hdecision
      · exact nomatch hdecision
      · next hgiveUp =>
        split at hdecision
        · exact nomatch hdecision
        · next hspacing =>
          refine ⟨?_, not_le.mp hgiveUp⟩
          have hspacing := not_lt.mp hspacing
          have hretry := (le_max_left _ _).trans hspacing
          have hdouble := (le_max_right _ _).trans hspacing
          unfold Spaced Poll.offset
          push_cast at hretry hdouble ⊢
          rw [max_le_iff]
          constructor
          · linarith
          · linarith
  · exact nomatch hrequests

/-- A read requested after finalization that asks for the session is what the next polls go by. -/
theorem Poll.readFrom_next (hrequests : poll.requests expected retryMs giveUpMs state = true)
    (hfinal : expected.finalizedAt ≤ poll.now) (hasks : poll.asks expected = true) :
    ReadFrom expected (poll.next expected retryMs giveUpMs state) poll := by
  rw [Poll.next, if_pos hrequests]
  exact ⟨rfl, rfl, hfinal, hasks⟩

/-- A poll that requests nothing leaves the record. -/
theorem Poll.next_of_not_requests
    (hrequests : ¬ poll.requests expected retryMs giveUpMs state = true) :
    poll.next expected retryMs giveUpMs state = state := by
  rw [Poll.next, if_neg hrequests]

theorem readsAfter_cons_of_requests {rest : List Poll}
    (hrequests : poll.requests expected retryMs giveUpMs state = true)
    (hfinal : expected.finalizedAt ≤ poll.now) :
    readsAfter expected retryMs giveUpMs state (poll :: rest)
      = poll :: readsAfter expected retryMs giveUpMs
          (poll.next expected retryMs giveUpMs state) rest := by
  rw [readsAfter, readsOf, if_pos hrequests, List.filter_cons_of_pos (by simpa using hfinal)]
  rfl

theorem readsAfter_cons_of_skip {rest : List Poll}
    (hskip : poll.requests expected retryMs giveUpMs state = true →
      ¬ expected.finalizedAt ≤ poll.now) :
    readsAfter expected retryMs giveUpMs state (poll :: rest)
      = readsAfter expected retryMs giveUpMs
          (poll.next expected retryMs giveUpMs state) rest := by
  rw [readsAfter, readsOf]
  split
  · next hrequests =>
    rw [List.filter_cons_of_neg (by simpa using hskip hrequests)]
    rfl
  · rfl

theorem offset_nonneg_of_mem {polls : List Poll}
    (h : read ∈ readsAfter expected retryMs giveUpMs state polls) : 0 ≤ read.offset expected := by
  have hfinal := of_decide_eq_true (List.mem_filter.mp h).2
  unfold Poll.offset
  exact_mod_cast Int.sub_nonneg_of_le hfinal

/-- The reads that follow one, which the record is from if it asked for the session. -/
theorem isChain_cons_readsAfter (polls : List Poll) : ∀ {state : EodTailState} {read : Poll},
    (read.asks expected = true → ReadFrom expected state read) →
      (read :: readsAfter expected retryMs giveUpMs state polls).IsChain
        (Follows expected retryMs giveUpMs) := by
  induction polls with
  | nil => exact fun _ => .singleton _
  | cons poll rest ih =>
    intro state read h
    by_cases hrequests : poll.requests expected retryMs giveUpMs state = true
    · by_cases hfinal : expected.finalizedAt ≤ poll.now
      · rw [readsAfter_cons_of_requests hrequests hfinal]
        exact (ih (Poll.readFrom_next hrequests hfinal)).cons_cons fun hasks =>
          (h hasks).spaced hrequests
      · rw [readsAfter_cons_of_skip fun _ => hfinal]
        refine ih fun hasks => ?_
        -- a read at twice a distance behind finalization is not before it
        have hfrom := h hasks
        have hdouble := (le_max_left _ _).trans (hfrom.spaced hrequests).1
        have hnonneg : (0 : ℚ) ≤ read.offset expected := by
          unfold Poll.offset
          exact_mod_cast Int.sub_nonneg_of_le hfrom.final
        have hbefore : poll.offset expected < 0 := by
          unfold Poll.offset
          exact_mod_cast Int.sub_neg_of_lt (not_le.mp hfinal)
        linarith
    · rw [readsAfter_cons_of_skip fun h => absurd h hrequests,
        Poll.next_of_not_requests hrequests]
      exact ih h

/-- **The reads after finalization**, from any record: the first whenever a poll comes, and each
behind one that asked for the session spaced and before the give-up bound. -/
theorem isChain_readsAfter (polls : List Poll) : ∀ state : EodTailState,
    (readsAfter expected retryMs giveUpMs state polls).IsChain
      (Follows expected retryMs giveUpMs) := by
  induction polls with
  | nil => exact fun _ => .nil
  | cons poll rest ih =>
    intro state
    by_cases h : poll.requests expected retryMs giveUpMs state = true
        ∧ expected.finalizedAt ≤ poll.now
    · obtain ⟨hrequests, hfinal⟩ := h
      rw [readsAfter_cons_of_requests hrequests hfinal]
      exact isChain_cons_readsAfter rest (Poll.readFrom_next hrequests hfinal)
    · rw [readsAfter_cons_of_skip fun hrequests hfinal => h ⟨hrequests, hfinal⟩]
      exact ih _

/-! ### How many -/

/-- Each distance is at least twice the one before it. -/
theorem lower_mul_pow_lt {bound : ℚ} (rest : List ℚ) : ∀ {second lower : ℚ}, lower ≤ second →
    (second :: rest).IsChain (Spaced retryMs) → (∀ later ∈ second :: rest, later < bound) →
    lower * 2 ^ rest.length < bound := by
  induction rest with
  | nil =>
    intro second lower hlower _ hbound
    rw [List.length_nil, pow_zero, mul_one]
    exact hlower.trans_lt (hbound second List.mem_cons_self)
  | cons third rest ih =>
    intro second lower hlower hchain hbound
    obtain ⟨hspaced, hchain⟩ := List.isChain_cons_cons.mp hchain
    have hdouble : 2 * lower ≤ third := by
      have := (le_max_left _ _).trans hspaced
      linarith
    have hrec := ih hdouble hchain fun later hlater => hbound later (List.mem_cons_of_mem _ hlater)
    calc lower * 2 ^ (third :: rest).length
        = 2 * lower * 2 ^ rest.length := by rw [List.length_cons, pow_succ]; ring
      _ < bound := hrec

/-- The most reads of which each asked for the session: the first, and as many as doublings of the
spacing fit below the give-up bound. -/
def mostReads (retryMs giveUpMs : ℚ) : ℤ := max 1 (1 + Int.clog 2 (giveUpMs / retryMs))

/-- Spaced distances below a bound. -/
theorem length_le_of_spaced (hretry : 0 < retryMs) {offsets : List ℚ}
    (hchain : offsets.IsChain (Spaced retryMs)) (hfirst : ∀ first ∈ offsets.head?, 0 ≤ first)
    (hlater : ∀ later ∈ offsets.tail, later < giveUpMs) :
    (offsets.length : ℤ) ≤ mostReads retryMs giveUpMs := by
  unfold mostReads
  match offsets with
  | [] => simp
  | [_] => simp
  | first :: second :: rest =>
    obtain ⟨hspaced, hchain⟩ := List.isChain_cons_cons.mp hchain
    have hnonneg : 0 ≤ first := hfirst first rfl
    have hsecond : retryMs ≤ second := by
      have := (le_max_right _ _).trans hspaced
      linarith
    have hpow := lower_mul_pow_lt rest hsecond hchain hlater
    have hratio : ((2 : ℕ) : ℚ) ^ ((rest.length : ℕ) : ℤ) < giveUpMs / retryMs := by
      rw [lt_div_iff₀ hretry, zpow_natCast, mul_comm]
      exact_mod_cast hpow
    have hpositive : 0 < giveUpMs / retryMs :=
      lt_of_le_of_lt (zpow_pos (by norm_num) _).le hratio
    have hlog := (Int.zpow_lt_iff_lt_clog one_lt_two hpositive).mp hratio
    refine le_max_of_le_right ?_
    rw [List.length_cons, List.length_cons]
    push_cast
    omega

/-- Reads of which all but the last asked for the session are spaced. -/
theorem spaced_of_asks {reads : List Poll}
    (hchain : reads.IsChain (Follows expected retryMs giveUpMs))
    (hasks : ∀ read ∈ reads.dropLast, read.asks expected = true) :
    (reads.map (Poll.offset expected)).IsChain (Spaced retryMs)
      ∧ ∀ later ∈ (reads.map (Poll.offset expected)).tail, later < giveUpMs := by
  induction reads with
  | nil =>
    refine ⟨.nil, fun later hlater => ?_⟩
    exact nomatch hlater
  | cons read rest ih =>
    cases rest with
    | nil =>
      refine ⟨.singleton _, fun later hlater => ?_⟩
      exact nomatch hlater
    | cons next rest =>
      obtain ⟨hfollows, hchain⟩ := List.isChain_cons_cons.mp hchain
      rw [List.dropLast_cons_cons] at hasks
      obtain ⟨hspaced, hgiveUp⟩ := hfollows (hasks read List.mem_cons_self)
      obtain ⟨hrest, hlater⟩ := ih hchain fun later hmem => hasks later (List.mem_cons_of_mem _ hmem)
      refine ⟨hrest.cons_cons hspaced, fun later hmem => ?_⟩
      rcases List.mem_cons.mp hmem with rfl | hmem
      · exact hgiveUp
      · exact hlater later hmem

/-- **How many reads.** One that did not ask for the session starts the spacing afresh. -/
theorem length_le_of_follows (hretry : 0 < retryMs) (reads : List Poll)
    (hchain : reads.IsChain (Follows expected retryMs giveUpMs))
    (hnonneg : ∀ read ∈ reads, 0 ≤ read.offset expected) :
    (reads.length : ℤ)
      ≤ (1 + reads.countP fun read => !read.asks expected) * mostReads retryMs giveUpMs := by
  have hsegment : ∀ segment : List Poll, segment.IsChain (Follows expected retryMs giveUpMs) →
      (∀ read ∈ segment, 0 ≤ read.offset expected) →
      (∀ read ∈ segment.dropLast, read.asks expected = true) →
      (segment.length : ℤ) ≤ mostReads retryMs giveUpMs := by
    intro segment hsegment hpositive hasks
    obtain ⟨hspaced, hbelow⟩ := spaced_of_asks hsegment hasks
    rw [← List.length_map (f := Poll.offset expected)]
    refine length_le_of_spaced hretry hspaced (fun first hfirst => ?_) hbelow
    obtain ⟨read, hread, rfl⟩ := List.mem_map.mp (List.mem_of_head? hfirst)
    exact hpositive read hread
  induction hlength : reads.length using Nat.strong_induction_on generalizing reads with
  | _ n ih =>
    subst hlength
    by_cases hall : ∀ read ∈ reads, read.asks expected = true
    · have hnone : reads.countP (fun read => !read.asks expected) = 0 :=
        List.countP_eq_zero.mpr fun read hread => by rw [hall read hread]; decide
      rw [hnone, Nat.cast_zero, add_zero, one_mul]
      exact hsegment reads hchain hnonneg fun read hread => hall read (List.dropLast_subset _ hread)
    · -- up to the first read that did not ask for the session, and the reads after it
      obtain ⟨asking, other, rest, hasking, hother, rfl⟩ :
          ∃ asking other rest, (∀ read ∈ asking, read.asks expected = true)
            ∧ other.asks expected = false ∧ reads = asking ++ other :: rest := by
        obtain ⟨other, hmem, hother⟩ : ∃ other ∈ reads, ¬ other.asks expected = true := by
          simpa using hall
        obtain ⟨found, asking, rest, hnone, hfound, heq, -⟩ :=
          List.exists_of_eraseP (p := fun read => !read.asks expected) hmem (by simpa using hother)
        exact ⟨asking, found, rest, fun read hread => by simpa using hnone read hread,
          by simpa using hfound, heq⟩
      have hsplit : asking ++ other :: rest = (asking ++ [other]) ++ rest := by simp
      rw [hsplit] at hchain hnonneg ⊢
      have hfirst := hsegment (asking ++ [other]) hchain.left_of_append
        (fun read hread => hnonneg read (List.mem_append.mpr (.inl hread)))
        (fun read hread => hasking read (by rwa [List.dropLast_concat] at hread))
      have hrest := ih rest.length (by simp; omega) rest hchain.right_of_append
        (fun read hread => hnonneg read (List.mem_append.mpr (.inr hread))) rfl
      have hcount : (asking ++ [other] ++ rest).countP (fun read => !read.asks expected)
          = 1 + rest.countP fun read => !read.asks expected := by
        have hnone : asking.countP (fun read => !read.asks expected) = 0 :=
          List.countP_eq_zero.mpr fun read hread => by rw [hasking read hread]; decide
        rw [List.countP_append, List.countP_append, hnone, List.countP_singleton, hother]
        simp
      rw [hcount, List.length_append]
      push_cast
      linarith

/-! ### Up to date -/

/-- Without a read requested in the run, the record stays. -/
theorem stateAfter_eq_of_readsOf (polls : List Poll) : ∀ {state : EodTailState},
    readsOf expected retryMs giveUpMs state polls = [] →
    stateAfter expected retryMs giveUpMs state polls = state := by
  induction polls with
  | nil => exact fun _ => rfl
  | cons poll rest ih =>
    intro state hreads
    rw [readsOf] at hreads
    split at hreads
    · exact nomatch hreads
    · next hrequests =>
      rw [Poll.next_of_not_requests hrequests] at hreads
      rw [stateAfter, List.foldl_cons, Poll.next_of_not_requests hrequests]
      exact ih hreads

/-- Otherwise it is what the last read recorded. -/
theorem stateAfter_eq_last (polls : List Poll) : ∀ {state : EodTailState} {read : Poll},
    (readsOf expected retryMs giveUpMs state polls).getLast? = some read →
    stateAfter expected retryMs giveUpMs state polls
      = ⟨read.latestBar, some read.now, some read.tailDate⟩ := by
  induction polls with
  | nil => exact fun hread => nomatch hread
  | cons poll rest ih =>
    intro state read hread
    rw [readsOf] at hread
    rw [stateAfter, List.foldl_cons]
    split at hread
    · next hrequests =>
      cases hrest : (readsOf expected retryMs giveUpMs
          (poll.next expected retryMs giveUpMs state) rest).getLast? with
      | none =>
        have hnil := List.getLast?_eq_none_iff.mp hrest
        rw [hnil] at hread
        obtain rfl : poll = read := Option.some.inj hread
        refine (stateAfter_eq_of_readsOf rest hnil).trans ?_
        rw [Poll.next, if_pos hrequests]
      | some last =>
        rw [List.getLast?_cons, hrest] at hread
        rw [← Option.some.inj hread]
        exact ih hrest
    · next hrequests =>
      exact ih hread

/-- What the decision checks before it says up to date. -/
theorem checks_of_upToDate {now : ℤ}
    (h : decideEodTailRefresh expected retryMs giveUpMs state now = .SKIP .UP_TO_DATE) :
    ∃ lastSync, state.lastTailSyncAt = some lastSync
      ∧ readAfterFinal expected state lastSync = true ∧ holdsSession expected state = true := by
  unfold decideEodTailRefresh at h
  split at h
  · exact nomatch h
  · next lastSync hsync =>
    split at h
    · exact nomatch h
    · next hread =>
      split at h
      · next hholds => exact ⟨lastSync, hsync, by simpa using hread, hholds⟩
      · split at h
        · exact nomatch h
        · split at h
          · exact nomatch h
          · exact nomatch h

/-- **Up to date is proved by a read.** Where the session was not stored at first, one was requested
in the run, after the session became final, and asked for it. -/
theorem exists_read_of_upToDate {polls : List Poll} {now : ℤ}
    (hmissing : holdsSession expected state = false)
    (hupToDate : decideEodTailRefresh expected retryMs giveUpMs
      (stateAfter expected retryMs giveUpMs state polls) now = .SKIP .UP_TO_DATE) :
    ∃ read ∈ readsOf expected retryMs giveUpMs state polls,
      expected.finalizedAt ≤ read.now ∧ expected.session ≤ read.tailDate := by
  obtain ⟨lastSync, hsync, hread, hholds⟩ := checks_of_upToDate hupToDate
  cases hlast : (readsOf expected retryMs giveUpMs state polls).getLast? with
  | none =>
    -- no read was requested, and the record still lacks the session
    rw [stateAfter_eq_of_readsOf polls (List.getLast?_eq_none_iff.mp hlast), hmissing] at hholds
    exact nomatch hholds
  | some read =>
    rw [stateAfter_eq_last polls hlast] at hsync hread
    obtain rfl : read.now = lastSync := Option.some.inj hsync
    rw [readAfterFinal, Bool.and_eq_true] at hread
    exact ⟨read, List.mem_of_getLast? hlast, of_decide_eq_true hread.1, of_decide_eq_true hread.2⟩

/-- **The refresh is safe and bounded**, for any polls, whatever their reads ask for and whatever
the provider answers. Up to date is said of a session that was not stored only behind a read after
finalization that asked for it. Behind each read after finalization that asked for the session, the
next one is spaced and before the give-up bound; and there are at most as many reads as doublings of
the spacing fit below that bound, and one, for each time the spacing starts. -/
theorem tailRefresh_bounded (expected : FinalizedSession) (retryMs giveUpMs : ℚ)
    (hretry : 0 < retryMs) (state : EodTailState) (polls : List Poll) :
    (∀ before poll after, polls = before ++ poll :: after → holdsSession expected state = false →
      decideEodTailRefresh expected retryMs giveUpMs
        (stateAfter expected retryMs giveUpMs state before) poll.now = .SKIP .UP_TO_DATE →
      ∃ read ∈ readsOf expected retryMs giveUpMs state before,
        expected.finalizedAt ≤ read.now ∧ expected.session ≤ read.tailDate)
    ∧ (readsAfter expected retryMs giveUpMs state polls).IsChain (Follows expected retryMs giveUpMs)
    ∧ ((readsAfter expected retryMs giveUpMs state polls).length : ℤ)
      ≤ (1 + (readsAfter expected retryMs giveUpMs state polls).countP
          fun read => !read.asks expected) * mostReads retryMs giveUpMs := by
  have hchain := @isChain_readsAfter expected retryMs giveUpMs polls state
  refine ⟨?_, hchain, length_le_of_follows hretry _ hchain fun read => offset_nonneg_of_mem⟩
  intro before poll after _ hmissing hupToDate
  exact exists_read_of_upToDate hmissing hupToDate

end Run

/-- Polls every half hour of a day, of a session never published: at most seven reads. -/
theorem tailRefresh_bounded_day :
    (readsAfter ⟨20000, 0⟩ 1800000 86400000 ⟨none, none, none⟩
      ((List.range 48).map fun poll : ℕ => ⟨poll * 1800000, 20000, some 19999⟩)).length ≤ 7 := by
  have hbound := (tailRefresh_bounded ⟨20000, 0⟩ 1800000 86400000 (by norm_num) ⟨none, none, none⟩
    ((List.range 48).map fun poll : ℕ => ⟨poll * 1800000, 20000, some 19999⟩)).2.2
  have hasks : ∀ read ∈ readsAfter ⟨20000, 0⟩ 1800000 86400000 ⟨none, none, none⟩
      ((List.range 48).map fun poll : ℕ => ⟨poll * 1800000, 20000, some 19999⟩),
      ¬ (!read.asks ⟨20000, 0⟩) = true := by
    decide +kernel
  have hlog : Int.clog 2 ((86400000 : ℚ) / 1800000) ≤ 6 :=
    (Int.le_zpow_iff_clog_le one_lt_two (by norm_num)).mp (by norm_num)
  rw [List.countP_eq_zero.mpr hasks, mostReads] at hbound
  omega

/-- A give-up bound of an eighth of the spacing: the first read is requested all the same. -/
theorem tailRefresh_short_giveUp :
    ¬ ((readsAfter ⟨20000, 0⟩ 8 1 ⟨none, none, none⟩ [⟨0, 20000, none⟩]).length : ℤ)
      ≤ 2 + Int.clog 2 ((1 : ℚ) / 8) := by
  have hlog : Int.clog 2 ((1 : ℚ) / 8) = -3 := by
    have heighth : (1 : ℚ) / 8 = ((2 : ℕ) : ℚ) ^ (-3 : ℤ) := by norm_num
    rw [heighth]
    exact Int.clog_zpow one_lt_two _
  have hreads : (readsAfter ⟨20000, 0⟩ 8 1 ⟨none, none, none⟩ [⟨0, 20000, none⟩]).length = 1 := by
    decide
  rw [hlog, hreads]
  decide

end FactorSage.EodFinality
