/-!
# Three-valued predicate results

A predicate on one trading date is `TRUE`, `FALSE`, or `NOT_EVALUABLE` when something it reads is
unavailable. Conjunction and disjunction are Kleene's strong ones.
-/

namespace FactorSage

inductive Evaluability where
  | notEvaluable | false | true
  deriving DecidableEq

/-- Kleene strong AND: `FALSE` absorbs. -/
def evaluabilityAnd (a b : Evaluability) : Evaluability :=
  if a = .false ∨ b = .false then .false
  else if a = .notEvaluable ∨ b = .notEvaluable then .notEvaluable
  else .true

/-- The conjunction of a list, `TRUE` when it is empty. Leaving the loop at the first `FALSE`
changes nothing, since `FALSE` absorbs. -/
def evaluabilityAll (values : List Evaluability) : Evaluability :=
  values.foldl evaluabilityAnd .true

/-- Kleene strong OR: `TRUE` absorbs. -/
def evaluabilityOr (a b : Evaluability) : Evaluability :=
  if a = .true ∨ b = .true then .true
  else if a = .notEvaluable ∨ b = .notEvaluable then .notEvaluable
  else .false

/-- The disjunction of a list, `FALSE` when it is empty. -/
def evaluabilityAny (values : List Evaluability) : Evaluability :=
  values.foldl evaluabilityOr .false

def fromBoolean (value : Bool) : Evaluability := if value then .true else .false

end FactorSage
