import FactorSage.Rebase.Comparison

/-!
# The basis factor

`basisFactorAt` puts the stored close of a session on the basis a statement revision was observed
on: every re-base the observation precedes and the session precedes contributes its ratio, and a
session or an observation a re-base may have reached is withheld. The events are taken in the order
they are passed, and the first that withholds decides.
-/

namespace FactorSage.Rebase

open BinaryRounding

/-- The share-changing ratios companies actually use besides `k:1` and `1:k`. -/
def PLAIN_FRACTIONAL_RATIOS : List (ℚ × ℚ) := [(3, 2), (5, 4), (4, 3), (5, 2), (5, 3)]

/-- Within a tolerance of a target, and the last digit of a double. -/
def isNear (ratio tolerance target : ℚ) : Bool :=
  |toDouble (toDouble (ratio / target) - 1)| ≤ toDouble (tolerance + toDouble (1 / 1000000000000))

/-- A plain share change: `k:1` or `1:k` for a whole `k ≥ 2`, or one of a few fractional ratios
either way. -/
def isPlainShareRatio (ratio tolerance : ℚ) : Bool :=
  if ratio ≤ 0 then false
  else
    let whole : ℤ := ⌊(if 1 ≤ ratio then ratio else toDouble (1 / ratio)) + 1 / 2⌋
    (2 ≤ whole && isNear ratio tolerance (if 1 ≤ ratio then whole else toDouble (1 / whole)))
      || PLAIN_FRACTIONAL_RATIOS.any fun (larger, smaller) =>
        isNear ratio tolerance (toDouble (larger / smaller))
          || isNear ratio tolerance (toDouble (smaller / larger))

/-- The tolerance of a measured ratio: half a percent. -/
def MEASURED_RATIO_TOLERANCE : ℚ := toDouble (5 / 1000)

inductive BasisWithheldReason
  | UNEXPLAINED_REBASE
  | AFTER_REBASE
  | OBSERVED_DURING_REBASE
  | UNDATED_REBASE
  | BEFORE_DISTRIBUTION
  deriving DecidableEq

inductive BasisFactor
  | FACTOR (factor : ℚ)
  | WITHHELD (reason : BasisWithheldReason)
  deriving DecidableEq

namespace PriceBasisEvent

variable (event : PriceBasisEvent) (session observedAt : ℤ)

/-- The last session certainly before an undated event. -/
def lastBefore : Option ℤ := if event.effectiveDate = none then event.effectiveFrom else none

def sessionBefore : Bool :=
  match event.effectiveDate with
  | some date => session < date
  | none => ∃ last ∈ event.lastBefore, session ≤ last

def sessionAfter : Bool :=
  !event.sessionBefore session && match event.effectiveDate with
    | some date => decide (date ≤ session)
    | none => decide (∃ last ∈ event.effectiveTo, last ≤ session)

def observedBefore : Bool :=
  match event.effectiveDate with
  | some date => instantDate observedAt < date
  | none => ∃ last ∈ event.lastBefore, instantDate observedAt ≤ last

/-- What an unexplained change does to a session. -/
def unexplainedFactor : BasisFactor :=
  if event.detectedAt ≤ observedAt then .FACTOR 1
  else
    match event.effectiveFrom, event.effectiveTo with
    | some first, some last =>
      if first ≤ session ∧ session ≤ last then .WITHHELD .UNEXPLAINED_REBASE else .FACTOR 1
    | _, _ => .WITHHELD .UNEXPLAINED_REBASE

/-- What a measured re-base does to a session. -/
def measuredFactor (priceRatio : ℚ) : BasisFactor :=
  if event.detectedAt ≤ observedAt then
    if event.sessionAfter session || isPlainShareRatio priceRatio MEASURED_RATIO_TOLERANCE then
      .FACTOR 1
    else if event.sessionBefore session then .WITHHELD .BEFORE_DISTRIBUTION
    else .WITHHELD .UNDATED_REBASE
  else if !event.observedBefore observedAt then
    .WITHHELD (if event.effectiveDate = none then .UNDATED_REBASE else .OBSERVED_DURING_REBASE)
  else if !event.sessionBefore session then
    .WITHHELD (if event.sessionAfter session then .AFTER_REBASE else .UNDATED_REBASE)
  else .FACTOR priceRatio

/-- What one event does to a session. -/
def factorAt : BasisFactor :=
  match event.kind, event.priceRatio with
  | .MEASURED, some priceRatio => event.measuredFactor session observedAt priceRatio
  | _, _ => event.unexplainedFactor session observedAt

end PriceBasisEvent

/-- The events one after another, from a factor on. One that leaves the session alone contributes 1,
and the product is exact. -/
def basisFactorFrom (session observedAt : ℤ) : ℚ → List PriceBasisEvent → BasisFactor
  | factor, [] => .FACTOR factor
  | factor, event :: events =>
    match event.factorAt session observedAt with
    | .WITHHELD reason => .WITHHELD reason
    | .FACTOR ratio => basisFactorFrom session observedAt (toDouble (factor * ratio)) events

/-- `K(t, R)`. -/
def basisFactorAt (session observedAt : ℤ) (events : List PriceBasisEvent) : BasisFactor :=
  basisFactorFrom session observedAt 1 events

/-! ### Dated events detected after an observation -/

section Dated

variable {session observedAt : ℤ}

/-- A measured event with a date after the observation, detected after it. -/
structure DatedAfter (observedAt : ℤ) (event : PriceBasisEvent) (date : ℤ) (ratio : ℚ) : Prop where
  measured : event.kind = .MEASURED
  dated : event.effectiveDate = some date
  rated : event.priceRatio = some ratio
  detected : observedAt < event.detectedAt
  observed : instantDate observedAt < date

/-- Such an event contributes its ratio to the sessions before it, and withholds the others. -/
theorem DatedAfter.factorAt {event : PriceBasisEvent} {date : ℤ} {ratio : ℚ}
    (h : DatedAfter observedAt event date ratio) :
    event.factorAt session observedAt
      = if session < date then .FACTOR ratio else .WITHHELD .AFTER_REBASE := by
  unfold PriceBasisEvent.factorAt PriceBasisEvent.measuredFactor PriceBasisEvent.sessionAfter
    PriceBasisEvent.sessionBefore PriceBasisEvent.observedBefore
  rw [h.measured, h.rated, h.dated]
  dsimp only
  rw [if_neg (not_le.mpr h.detected)]
  by_cases hsession : session < date
  · simp [h.observed, hsession]
  · simp [h.observed, hsession, not_lt.mp hsession]

/-- The rounded product of the ratios, for a session before every event. -/
theorem basisFactorFrom_before {events : List PriceBasisEvent} : ∀ {factor : ℚ},
    (∀ event ∈ events, ∃ date ratio, DatedAfter observedAt event date ratio ∧ session < date) →
    basisFactorFrom session observedAt factor events
      = .FACTOR (roundedProduct factor (events.filterMap PriceBasisEvent.priceRatio)) := by
  induction events with
  | nil => exact fun _ => rfl
  | cons event events ih =>
    intro factor h
    obtain ⟨date, ratio, hdated, hsession⟩ := h event List.mem_cons_self
    unfold basisFactorFrom
    rw [hdated.factorAt, if_pos hsession, List.filterMap_cons, hdated.rated]
    exact ih fun other hother => h other (List.mem_cons_of_mem _ hother)

/-- A session on or after one of the events is withheld. -/
theorem basisFactorFrom_after {events : List PriceBasisEvent} : ∀ {factor : ℚ},
    (∀ event ∈ events, ∃ date ratio, DatedAfter observedAt event date ratio) →
    (∃ event ∈ events, ∃ date ∈ event.effectiveDate, date ≤ session) →
    basisFactorFrom session observedAt factor events = .WITHHELD .AFTER_REBASE := by
  induction events with
  | nil => exact fun _ ⟨_, hmem, _⟩ => (nomatch hmem)
  | cons event events ih =>
    intro factor hdated hafter
    obtain ⟨date, ratio, hevent⟩ := hdated event List.mem_cons_self
    unfold basisFactorFrom
    rw [hevent.factorAt]
    by_cases hsession : session < date
    · rw [if_pos hsession]
      refine ih (fun other hother => hdated other (List.mem_cons_of_mem _ hother)) ?_
      obtain ⟨other, hother, last, hlast, hle⟩ := hafter
      rcases List.mem_cons.mp hother with rfl | hother
      · rw [hevent.dated, Option.mem_some_iff] at hlast
        omega
      · exact ⟨other, hother, last, hlast, hle⟩
    · rw [if_neg hsession]

end Dated

end FactorSage.Rebase
