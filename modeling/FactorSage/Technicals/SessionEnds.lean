import FactorSage.Technicals.Weekly

/-!
# When a week is over

What the schedule walk says about one week. A week whose last bar is not its Friday ends with that
bar exactly when every weekday behind it is one the schedule reports closed, in a year no earlier
week of the walk found unanswerable (`ends_eq_lastBar_iff`). So a date sees its own week exactly when
it is the week's last bar and nothing was to follow it (`sessionEnd_le_iff`).
-/

namespace FactorSage.Technicals

open ComparatorSort BinarySearch

variable {yearOf : ℤ → ℤ} {isScheduledSession : ℤ → Option Bool}

/-! ### Weeks -/

theorem startOfIsoWeek_le (date : ℤ) : startOfIsoWeek date ≤ date ∧ date < startOfIsoWeek date + 7 := by
  unfold startOfIsoWeek getUTCDay
  split <;> omega

theorem startOfIsoWeek_mono {a b : ℤ} (h : a ≤ b) : startOfIsoWeek a ≤ startOfIsoWeek b := by
  unfold startOfIsoWeek getUTCDay
  split <;> split <;> omega

/-- A later week starts a week later or more. -/
theorem startOfIsoWeek_add_seven_le {a b : ℤ} (h : startOfIsoWeek a < startOfIsoWeek b) :
    startOfIsoWeek a + 7 ≤ startOfIsoWeek b := by
  unfold startOfIsoWeek getUTCDay at *
  split at h <;> split at h <;> simp_all <;> omega

/-- A day bars are printed on. -/
def IsWeekday (date : ℤ) : Prop := getUTCDay date ≠ 0 ∧ getUTCDay date ≠ 6

theorem IsWeekday.le_friday {date : ℤ} (h : IsWeekday date) :
    date ≤ fridayOfIsoWeek (startOfIsoWeek date) := by
  obtain ⟨hsunday, hsaturday⟩ := h
  unfold fridayOfIsoWeek startOfIsoWeek
  rw [if_neg hsunday]
  unfold getUTCDay at *
  omega

/-! ### One week -/

theorem weekSessionEnd_bounds {unanswerable : List ℤ} {lastBar date : ℤ} {days : ℕ}
    (h : (weekSessionEnd yearOf isScheduledSession unanswerable lastBar days).1 = some date) :
    lastBar ≤ date ∧ date ≤ lastBar + days := by
  induction days with
  | zero =>
    obtain rfl : lastBar = date := by simpa [weekSessionEnd] using h
    simp
  | succ days ih =>
    simp only [weekSessionEnd] at h
    split at h
    · exact nomatch h
    · split at h
      · exact nomatch h
      · obtain rfl := Option.some.inj h
        push_cast
        omega
      · have := ih h
        push_cast
        omega

/-- Nothing was to follow the last bar: every day behind it is known to be closed. -/
def NoneFollows (yearOf : ℤ → ℤ) (isScheduledSession : ℤ → Option Bool) (unanswerable : List ℤ)
    (lastBar friday : ℤ) : Prop :=
  ∀ day, lastBar < day → day ≤ friday →
    yearOf day ∉ unanswerable ∧ isScheduledSession day = some false

theorem weekSessionEnd_eq_lastBar_iff {unanswerable : List ℤ} {lastBar : ℤ} {days : ℕ} :
    (weekSessionEnd yearOf isScheduledSession unanswerable lastBar days).1 = some lastBar
      ↔ NoneFollows yearOf isScheduledSession unanswerable lastBar (lastBar + days) := by
  induction days with
  | zero =>
    simp only [weekSessionEnd, true_iff]
    intro day hlt hle
    push_cast at hle
    omega
  | succ days ih =>
    have hstep : NoneFollows yearOf isScheduledSession unanswerable lastBar
          (lastBar + (days + 1 : ℕ))
        ↔ (yearOf (lastBar + (days + 1)) ∉ unanswerable
            ∧ isScheduledSession (lastBar + (days + 1)) = some false)
          ∧ NoneFollows yearOf isScheduledSession unanswerable lastBar (lastBar + days) := by
      constructor
      · intro h
        refine ⟨h _ (by omega) (by push_cast; omega), fun day hlt hle => h day hlt ?_⟩
        push_cast
        omega
      · rintro ⟨hlast, h⟩ day hlt hle
        by_cases hday : day = lastBar + (days + 1)
        · exact hday ▸ hlast
        · push_cast at hle
          exact h day hlt (by omega)
    rw [hstep, ← ih]
    simp only [weekSessionEnd]
    by_cases hyear : yearOf (lastBar + (days + 1)) ∈ unanswerable
    · simp [hyear]
    · rw [if_neg hyear]
      cases hsession : isScheduledSession (lastBar + (days + 1)) with
      | none => simp
      | some session =>
        cases session with
        | true =>
          simp only [Option.some.injEq, Bool.true_eq_false, and_false, false_and, iff_false]
          omega
        | false => simp [hyear]

/-- A year is found unanswerable by a day the schedule does not answer for. -/
theorem weekSessionEnd_years {unanswerable : List ℤ} {lastBar : ℤ} {days : ℕ} {year : ℤ}
    (h : year ∈ (weekSessionEnd yearOf isScheduledSession unanswerable lastBar days).2) :
    year ∈ unanswerable ∨ ∃ day, yearOf day = year ∧ isScheduledSession day = none := by
  induction days with
  | zero => exact .inl h
  | succ days ih =>
    simp only [weekSessionEnd] at h
    split at h
    · exact .inl h
    · split at h
      · next hunknown =>
        rcases List.mem_cons.mp h with rfl | h
        · exact .inr ⟨_, rfl, hunknown⟩
        · exact .inl h
      · exact .inl h
      · exact ih h

/-! ### The walk over the weeks -/

section Walk

variable (yearOf isScheduledSession) in
/-- The walk over weeks with their last bars. -/
def walkWeeks (fromWeek : Option ℤ) (weeks : List (ℤ × ℤ)) : SessionEnds :=
  weeks.foldl (resolveWeek yearOf isScheduledSession fromWeek) ⟨.empty, []⟩

theorem walkWeeks_append (fromWeek : Option ℤ) (weeks : List (ℤ × ℤ)) (week : ℤ × ℤ) :
    walkWeeks yearOf isScheduledSession fromWeek (weeks ++ [week])
      = resolveWeek yearOf isScheduledSession fromWeek
          (walkWeeks yearOf isScheduledSession fromWeek weeks) week := by
  simp [walkWeeks]

variable {fromWeek : Option ℤ}

/-- A week's step writes that week's end only. -/
theorem get?_resolveWeek_of_ne {state : SessionEnds} {week : ℤ × ℤ} {k : ℤ} (hk : k ≠ week.1) :
    (resolveWeek yearOf isScheduledSession fromWeek state week).ends.get? k
      = state.ends.get? k := by
  unfold resolveWeek
  split
  · rfl
  · split
    · rfl
    · dsimp only
      cases (weekSessionEnd yearOf isScheduledSession state.unanswerableYears week.2
        (fridayOfIsoWeek week.1 - week.2).toNat).1 with
      | none => rfl
      | some date => exact OrderedMap.get?_set_of_ne _ _ hk

theorem get?_foldl_resolveWeek_of_not_mem {weeks : List (ℤ × ℤ)} {k : ℤ}
    (hk : k ∉ weeks.map Prod.fst) (state : SessionEnds) :
    (weeks.foldl (resolveWeek yearOf isScheduledSession fromWeek) state).ends.get? k
      = state.ends.get? k := by
  induction weeks generalizing state with
  | nil => rfl
  | cons week weeks ih =>
    rw [List.map_cons, List.mem_cons, not_or] at hk
    rw [List.foldl_cons, ih hk.2, get?_resolveWeek_of_ne hk.1]

theorem mem_unanswerableYears {weeks : List (ℤ × ℤ)} {year : ℤ}
    (h : year ∈ (walkWeeks yearOf isScheduledSession fromWeek weeks).unanswerableYears) :
    ∃ day, yearOf day = year ∧ isScheduledSession day = none := by
  induction weeks using List.reverseRecOn with
  | nil => exact nomatch h
  | append_singleton weeks week ih =>
    rw [walkWeeks_append, resolveWeek] at h
    split at h
    · exact ih h
    · split at h
      · exact ih h
      · rcases weekSessionEnd_years h with h | h
        · exact ih h
        · exact h

/-- What the whole walk holds for a week is what its own step wrote. -/
theorem get?_walkWeeks {before after : List (ℤ × ℤ)} {week : ℤ × ℤ}
    (hbefore : week.1 ∉ before.map Prod.fst) (hafter : week.1 ∉ after.map Prod.fst) :
    (walkWeeks yearOf isScheduledSession fromWeek (before ++ week :: after)).ends.get? week.1
      = if fromWeek.any (week.1 < ·) ∨ fridayOfIsoWeek week.1 ≤ week.2 then none
        else (weekSessionEnd yearOf isScheduledSession
          (walkWeeks yearOf isScheduledSession fromWeek before).unanswerableYears week.2
          (fridayOfIsoWeek week.1 - week.2).toNat).1 := by
  have hnone : (walkWeeks yearOf isScheduledSession fromWeek before).ends.get? week.1 = none :=
    (get?_foldl_resolveWeek_of_not_mem hbefore _).trans (OrderedMap.get?_empty _)
  unfold walkWeeks at hnone ⊢
  rw [List.foldl_append, List.foldl_cons, get?_foldl_resolveWeek_of_not_mem hafter]
  generalize before.foldl (resolveWeek yearOf isScheduledSession fromWeek) ⟨.empty, []⟩ = state
    at hnone
  unfold resolveWeek
  by_cases hfrom : fromWeek.any (week.1 < ·) = true
  · simp only [hfrom, if_true, true_or, hnone]
  · by_cases hfriday : fridayOfIsoWeek week.1 ≤ week.2
    · simp only [hfrom, hfriday, if_true, if_false, or_true, hnone, Bool.false_eq_true]
    · simp only [hfrom, hfriday, if_false, or_self, Bool.false_eq_true]
      cases (weekSessionEnd yearOf isScheduledSession state.unanswerableYears week.2
        (fridayOfIsoWeek week.1 - week.2).toNat).1 with
      | none => exact hnone
      | some date => exact OrderedMap.get?_set_self _ _ _

end Walk

/-! ### The last bars -/

theorem lastBarByWeek_append (dates : List ℤ) (date : ℤ) :
    lastBarByWeek (dates ++ [date])
      = match (lastBarByWeek dates).get? (startOfIsoWeek date) with
        | some last =>
          if last < date then (lastBarByWeek dates).set (startOfIsoWeek date) date
          else lastBarByWeek dates
        | none => (lastBarByWeek dates).set (startOfIsoWeek date) date := by
  unfold lastBarByWeek
  rw [List.foldl_append]
  rfl

theorem get?_lastBarByWeek_append (dates : List ℤ) (date k : ℤ) :
    (lastBarByWeek (dates ++ [date])).get? k
      = if k = startOfIsoWeek date then
          some (((lastBarByWeek dates).get? k).elim date (max · date))
        else (lastBarByWeek dates).get? k := by
  rw [lastBarByWeek_append]
  by_cases hk : k = startOfIsoWeek date
  · subst hk
    rw [if_pos rfl]
    cases hget : (lastBarByWeek dates).get? (startOfIsoWeek date) with
    | none => exact OrderedMap.get?_set_self _ _ _
    | some last =>
      dsimp only
      split
      · next hlt => simp [max_eq_right hlt.le]
      · next hle => simp [hget, max_eq_left (not_lt.mp hle)]
  · rw [if_neg hk]
    split
    · split
      · exact OrderedMap.get?_set_of_ne _ _ hk
      · rfl
    · exact OrderedMap.get?_set_of_ne _ _ hk

theorem get?_lastBarByWeek_eq_none {dates : List ℤ} {k : ℤ} :
    (lastBarByWeek dates).get? k = none ↔ ∀ date ∈ dates, startOfIsoWeek date ≠ k := by
  induction dates using List.reverseRecOn with
  | nil => simp [lastBarByWeek]
  | append_singleton dates new ih =>
    rw [get?_lastBarByWeek_append, List.forall_mem_append, ← ih]
    by_cases hk : k = startOfIsoWeek new
    · simp [hk]
    · simp [hk, Ne.symm hk]

/-- A week's last bar is one of its bars, and no bar of the week is later. -/
theorem get?_lastBarByWeek {dates : List ℤ} {k last : ℤ}
    (h : (lastBarByWeek dates).get? k = some last) :
    last ∈ dates ∧ startOfIsoWeek last = k
      ∧ ∀ date ∈ dates, startOfIsoWeek date = k → date ≤ last := by
  induction dates using List.reverseRecOn generalizing last with
  | nil => exact nomatch h
  | append_singleton dates new ih =>
    rw [get?_lastBarByWeek_append] at h
    by_cases hk : k = startOfIsoWeek new
    · rw [if_pos hk] at h
      cases hget : (lastBarByWeek dates).get? k with
      | none =>
        rw [hget] at h
        obtain rfl : new = last := by simpa using h
        refine ⟨by simp, hk.symm, fun date hdate hweek => ?_⟩
        rcases List.mem_append.mp hdate with hdate | hdate
        · exact absurd hweek (get?_lastBarByWeek_eq_none.mp hget date hdate)
        · exact (List.mem_singleton.mp hdate).le
      | some before =>
        rw [hget] at h
        obtain rfl : max before new = last := by simpa using h
        obtain ⟨hmem, hweek, hlatest⟩ := ih hget
        refine ⟨?_, ?_, fun date hdate hdateWeek => ?_⟩
        · rcases max_choice before new with heq | heq <;> rw [heq] <;> simp [hmem]
        · rcases max_choice before new with heq | heq <;> rw [heq]
          · exact hweek
          · exact hk.symm
        · rcases List.mem_append.mp hdate with hdate | hdate
          · exact (hlatest date hdate hdateWeek).trans (le_max_left _ _)
          · exact (List.mem_singleton.mp hdate).le.trans (le_max_right _ _)
    · rw [if_neg hk] at h
      obtain ⟨hmem, hweek, hlatest⟩ := ih h
      refine ⟨by simp [hmem], hweek, fun date hdate hdateWeek => ?_⟩
      rcases List.mem_append.mp hdate with hdate | hdate
      · exact hlatest date hdate hdateWeek
      · exact absurd (hdateWeek.symm.trans (congrArg _ (List.mem_singleton.mp hdate))) hk

/-! ### The end of a week -/

section SessionEnd

variable {dates : List ℤ} {fromWeek : Option ℤ} {weekStart last : ℤ}

/-- A week's place in the walk: the weeks before it, its last bar, the weeks after it. -/
structure WalkedAt (dates : List ℤ) (weekStart last : ℤ) (before after : List (ℤ × ℤ)) : Prop where
  entries : (lastBarByWeek dates).entries = before ++ (weekStart, last) :: after
  not_before : weekStart ∉ before.map Prod.fst
  not_after : weekStart ∉ after.map Prod.fst

theorem exists_walkedAt (h : (lastBarByWeek dates).get? weekStart = some last) :
    ∃ before after, WalkedAt dates weekStart last before after := by
  obtain ⟨before, after, hentries⟩ := List.append_of_mem (OrderedMap.mem_entries_iff.mpr h)
  have hnodup := (lastBarByWeek dates).nodup
  rw [hentries, List.map_append, List.map_cons, List.nodup_append, List.nodup_cons] at hnodup
  refine ⟨before, after, hentries, fun hmem => ?_, hnodup.2.1.1⟩
  exact hnodup.2.2 _ hmem _ List.mem_cons_self rfl

variable (yearOf isScheduledSession) in
/-- The years found unanswerable before a week was asked about. -/
def yearsBefore (fromWeek : Option ℤ) (before : List (ℤ × ℤ)) : List ℤ :=
  (walkWeeks yearOf isScheduledSession fromWeek before).unanswerableYears

theorem WalkedAt.get? {before after : List (ℤ × ℤ)} (h : WalkedAt dates weekStart last before after) :
    (resolveWeekSessionEnds yearOf isScheduledSession dates fromWeek).get? weekStart
      = if fromWeek.any (weekStart < ·) ∨ fridayOfIsoWeek weekStart ≤ last then none
        else (weekSessionEnd yearOf isScheduledSession
          (yearsBefore yearOf isScheduledSession fromWeek before) last
          (fridayOfIsoWeek weekStart - last).toNat).1 := by
  have hwalk := @get?_walkWeeks yearOf isScheduledSession fromWeek before after (weekStart, last)
    h.not_before h.not_after
  rw [← h.entries] at hwalk
  exact hwalk

/-- A week ends on its last bar or behind it, and never behind its Friday. -/
theorem sessionEnd_bounds (h : (lastBarByWeek dates).get? weekStart = some last)
    (hfriday : last ≤ fridayOfIsoWeek weekStart) :
    last ≤ sessionEnd (resolveWeekSessionEnds yearOf isScheduledSession dates fromWeek) weekStart
        last
      ∧ sessionEnd (resolveWeekSessionEnds yearOf isScheduledSession dates fromWeek) weekStart last
        ≤ fridayOfIsoWeek weekStart := by
  unfold sessionEnd
  split
  · exact ⟨le_rfl, hfriday⟩
  · next hbefore =>
    obtain ⟨before, after, hwalked⟩ := exists_walkedAt h
    rw [hwalked.get?]
    split
    · exact ⟨hfriday, le_rfl⟩
    · cases hend : (weekSessionEnd yearOf isScheduledSession
          (yearsBefore yearOf isScheduledSession fromWeek before) last
          (fridayOfIsoWeek weekStart - last).toNat).1 with
      | none => exact ⟨hfriday, le_rfl⟩
      | some date =>
        obtain ⟨hlow, hhigh⟩ := weekSessionEnd_bounds hend
        refine ⟨hlow, hhigh.trans ?_⟩
        omega

/-- **A date sees its own week** exactly when it is the week's last bar and either the Friday or a
day known to have no session behind it. -/
theorem sessionEnd_le_iff {before after : List (ℤ × ℤ)} {date : ℤ}
    (h : WalkedAt dates weekStart last before after) (hdate : date ≤ last)
    (hfriday : last ≤ fridayOfIsoWeek weekStart) (hfrom : ¬ fromWeek.any (weekStart < ·)) :
    sessionEnd (resolveWeekSessionEnds yearOf isScheduledSession dates fromWeek) weekStart last
        ≤ date
      ↔ last = date ∧ NoneFollows yearOf isScheduledSession
          (yearsBefore yearOf isScheduledSession fromWeek before) date
          (fridayOfIsoWeek weekStart) := by
  unfold sessionEnd
  by_cases hlast : fridayOfIsoWeek weekStart ≤ last
  · rw [if_pos hlast]
    constructor
    · intro hle
      obtain rfl : last = date := le_antisymm hle hdate
      exact ⟨rfl, fun day hlt hle => absurd hlt (by omega)⟩
    · rintro ⟨rfl, -⟩
      exact le_rfl
  · rw [if_neg hlast, h.get?, if_neg (by simp [hlast, hfrom])]
    have hfridayEq : last + ((fridayOfIsoWeek weekStart - last).toNat : ℤ)
        = fridayOfIsoWeek weekStart := by omega
    constructor
    · intro hle
      cases hend : (weekSessionEnd yearOf isScheduledSession
          (yearsBefore yearOf isScheduledSession fromWeek before) last
          (fridayOfIsoWeek weekStart - last).toNat).1 with
      | none =>
        rw [hend, Option.getD_none] at hle
        omega
      | some resolved =>
        rw [hend, Option.getD_some] at hle
        obtain rfl : last = date := by
          have := (weekSessionEnd_bounds hend).1
          omega
        obtain rfl : resolved = last := le_antisymm hle (weekSessionEnd_bounds hend).1
        exact ⟨rfl, hfridayEq ▸ weekSessionEnd_eq_lastBar_iff.mp hend⟩
    · rintro ⟨rfl, hnone⟩
      rw [weekSessionEnd_eq_lastBar_iff.mpr (hfridayEq.symm ▸ hnone), Option.getD_some]

end SessionEnd

/-! ### The same week, asked about earlier and later -/

/-- The schedule answers for all days of a year or for none. -/
def AnswersByYear (yearOf : ℤ → ℤ) (isScheduledSession : ℤ → Option Bool) : Prop :=
  ∀ a b, yearOf a = yearOf b → isScheduledSession a = none → isScheduledSession b = none

/-- Where whole years are unanswerable, the years found so far add nothing to the days' answers. -/
theorem noneFollows_iff_of_answersByYear (hyears : AnswersByYear yearOf isScheduledSession)
    {fromWeek : Option ℤ} {before : List (ℤ × ℤ)} {lastBar friday : ℤ} :
    NoneFollows yearOf isScheduledSession
        (yearsBefore yearOf isScheduledSession fromWeek before) lastBar friday
      ↔ ∀ day, lastBar < day → day ≤ friday → isScheduledSession day = some false := by
  constructor
  · intro h day hlt hle
    exact (h day hlt hle).2
  · intro h day hlt hle
    refine ⟨fun hmem => ?_, h day hlt hle⟩
    obtain ⟨unknown, hyear, hnone⟩ := mem_unanswerableYears hmem
    have := hyears unknown day hyear hnone
    simp [h day hlt hle] at this

variable {before after : List (ℤ × ℤ)}

/-- Writing no key of the first entries leaves them, and the entry behind them, in their place. -/
theorem setEntries_cut {m : OrderedMap ℤ ℤ} {weekStart last : ℤ}
    (hentries : m.entries = before ++ (weekStart, last) :: after) {k : ℤ}
    (hk : k ∉ before.map Prod.fst) (value : ℤ) :
    ∃ last' after', (m.set k value).entries = before ++ (weekStart, last') :: after' := by
  change ∃ last' after', m.setEntries k value = _
  unfold OrderedMap.setEntries
  rw [hentries]
  split
  · have hbefore : before.map (fun e => if e.1 = k then (k, value) else e) = before := by
      refine (List.map_congr_left fun e he => ?_).trans (List.map_id before)
      rw [if_neg fun heq => hk (List.mem_map.mpr ⟨e, he, heq⟩)]
      rfl
    rw [List.map_append, List.map_cons, hbefore]
    by_cases hweek : weekStart = k
    · exact ⟨value, _, by rw [if_pos hweek, hweek]⟩
    · exact ⟨last, _, by rw [if_neg hweek]⟩
  · exact ⟨last, after ++ [(k, value)], by simp⟩

/-- Dates of the week or of later weeks, listed behind, leave the weeks before it as they were. -/
theorem WalkedAt.append {dates : List ℤ} {weekStart last : ℤ}
    (h : WalkedAt dates weekStart last before after)
    (hdates : ∀ date ∈ dates, startOfIsoWeek date ≤ weekStart) {behind : List ℤ}
    (hbehind : ∀ date ∈ behind, weekStart ≤ startOfIsoWeek date) :
    ∃ last' after', (lastBarByWeek (dates ++ behind)).entries
      = before ++ (weekStart, last') :: after' := by
  have hkey : ∀ date ∈ behind, startOfIsoWeek date ∉ before.map Prod.fst := by
    intro date hdate hmem
    obtain ⟨entry, hentry, heq⟩ := List.mem_map.mp hmem
    have hget : (lastBarByWeek dates).get? entry.1 = some entry.2 := by
      rw [← OrderedMap.mem_entries_iff, h.entries]
      exact List.mem_append_left _ hentry
    obtain ⟨hin, hweek, -⟩ := get?_lastBarByWeek hget
    have hle : entry.1 ≤ weekStart := hweek ▸ hdates _ hin
    have hge := hbehind date hdate
    rw [← heq] at hge
    exact h.not_before (List.mem_map.mpr ⟨entry, hentry, le_antisymm hle hge⟩)
  clear hbehind
  induction behind using List.reverseRecOn with
  | nil => exact ⟨last, after, by simpa using h.entries⟩
  | append_singleton behind date ih =>
    obtain ⟨last', after', hentries⟩ := ih fun date hdate => hkey date (by simp [hdate])
    have hnew := hkey date (by simp)
    rw [← List.append_assoc, lastBarByWeek_append]
    split
    · split
      · exact setEntries_cut hentries hnew _
      · exact ⟨last', after', hentries⟩
    · exact setEntries_cut hentries hnew _

/-- The dates asked about later are the earlier ones, in any order where the schedule answers by
year, and otherwise followed by dates of the week or of later weeks. -/
inductive Extends (yearOf : ℤ → ℤ) (isScheduledSession : ℤ → Option Bool) (weekStart : ℤ)
    (dates : List ℤ) (fromWeek : Option ℤ) (dates' : List ℤ) (fromWeek' : Option ℤ) : Prop
  | byYear : AnswersByYear yearOf isScheduledSession →
    Extends yearOf isScheduledSession weekStart dates fromWeek dates' fromWeek'
  | behind (behind : List ℤ) : fromWeek' = fromWeek → dates' = dates ++ behind →
    (∀ date ∈ dates, startOfIsoWeek date ≤ weekStart) →
    (∀ date ∈ behind, weekStart ≤ startOfIsoWeek date) →
    Extends yearOf isScheduledSession weekStart dates fromWeek dates' fromWeek'

/-- The weeks before one, found again among the dates asked about later. -/
theorem Extends.noneFollows {dates dates' : List ℤ} {fromWeek fromWeek' : Option ℤ}
    {weekStart date last : ℤ}
    (hextends : Extends yearOf isScheduledSession weekStart dates fromWeek dates' fromWeek')
    (hwalked : WalkedAt dates weekStart date before after)
    (h' : (lastBarByWeek dates').get? weekStart = some last) :
    ∃ before' after', WalkedAt dates' weekStart last before' after'
      ∧ ∀ friday, NoneFollows yearOf isScheduledSession
            (yearsBefore yearOf isScheduledSession fromWeek' before') date friday
          ↔ NoneFollows yearOf isScheduledSession
            (yearsBefore yearOf isScheduledSession fromWeek before) date friday := by
  rcases hextends with hyears | ⟨behind, rfl, rfl, hdates, hbehind⟩
  · obtain ⟨before', after', hwalked'⟩ := exists_walkedAt h'
    refine ⟨before', after', hwalked', fun friday => ?_⟩
    rw [noneFollows_iff_of_answersByYear hyears, noneFollows_iff_of_answersByYear hyears]
  · obtain ⟨last', after', hentries⟩ := hwalked.append hdates hbehind
    obtain rfl : last' = last := by
      have hget := OrderedMap.mem_entries_iff.mp (hentries ▸ List.mem_append_right before
        List.mem_cons_self)
      exact Option.some.inj (hget.symm.trans h')
    have hnodup := (lastBarByWeek (dates ++ behind)).nodup
    rw [hentries, List.map_append, List.map_cons, List.nodup_append, List.nodup_cons] at hnodup
    exact ⟨before, after', ⟨hentries, hwalked.not_before, hnodup.2.1.1⟩, fun _ => Iff.rfl⟩

/-- **No hindsight**: a week is seen by a date once later bars are known exactly when it was while
that date's bar was the newest, and then no bar of the week followed. -/
theorem sessionEnd_le_iff_later {dates dates' : List ℤ} {fromWeek fromWeek' : Option ℤ}
    {weekStart date last : ℤ} (h : (lastBarByWeek dates).get? weekStart = some date)
    (h' : (lastBarByWeek dates').get? weekStart = some last) (hdate : date ≤ last)
    (hfriday : last ≤ fridayOfIsoWeek weekStart) (hopen : isScheduledSession last ≠ some false)
    (hfrom : ¬ fromWeek.any (weekStart < ·)) (hfrom' : ¬ fromWeek'.any (weekStart < ·))
    (hextends : Extends yearOf isScheduledSession weekStart dates fromWeek dates' fromWeek') :
    (sessionEnd (resolveWeekSessionEnds yearOf isScheduledSession dates' fromWeek') weekStart last
        ≤ date
      ↔ sessionEnd (resolveWeekSessionEnds yearOf isScheduledSession dates fromWeek) weekStart date
          ≤ date)
      ∧ (sessionEnd (resolveWeekSessionEnds yearOf isScheduledSession dates fromWeek) weekStart date
          ≤ date → last = date) := by
  obtain ⟨before, after, hwalked⟩ := exists_walkedAt h
  obtain ⟨before', after', hwalked', hsame⟩ := hextends.noneFollows hwalked h'
  rw [sessionEnd_le_iff hwalked le_rfl (hdate.trans hfriday) hfrom,
    sessionEnd_le_iff hwalked' hdate hfriday hfrom', hsame]
  have hlast : NoneFollows yearOf isScheduledSession
      (yearsBefore yearOf isScheduledSession fromWeek before) date (fridayOfIsoWeek weekStart) →
      last = date := by
    intro hnone
    by_contra hne
    -- a bar behind the date lies on a day the schedule does not report closed
    exact hopen (hnone last (lt_of_le_of_ne hdate (Ne.symm hne)) hfriday).2
  exact ⟨⟨fun hseen => ⟨rfl, hseen.2⟩, fun hseen => ⟨hlast hseen.2, hseen.2⟩⟩,
    fun hseen => hlast hseen.2⟩

end FactorSage.Technicals
