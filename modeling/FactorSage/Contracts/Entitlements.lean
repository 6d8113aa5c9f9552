import Mathlib.Data.Nat.Notation

/-!
# Entitlements

What the commercial plans allow of backtest execution. An absent limit is the product value
"unlimited", not a missing one.
-/

namespace FactorSage

inductive UserPlan
  | free
  | starter
  | pro
  | proPlus
  deriving DecidableEq, Repr

inductive UserRole
  | user
  | admin
  deriving DecidableEq, Repr

abbrev EntitlementLimit := Option ℕ

def withinLimit (limit : EntitlementLimit) (usage : ℕ) : Bool :=
  match limit with
  | none => true
  | some limit => usage ≤ limit

/-- The plan's row of the matrix, of which execution reads one number. -/
def UserPlan.concurrentRuns : UserPlan → ℕ
  | .free => 1
  | .starter => 1
  | .pro => 1
  | .proPlus => 2

/-- A user as an admission decision reads it. A plan this build does not know is `none`. -/
structure Owner where
  plan : Option UserPlan
  role : UserRole
  deriving DecidableEq, Repr

/-- `backtests.maxConcurrentRuns` of the resolved entitlements. Resolving throws on an unknown plan,
whatever the role; an administrator's capacity is unlimited. -/
def Owner.maxConcurrentRuns (owner : Owner) : Option EntitlementLimit :=
  owner.plan.map fun plan => match owner.role with
    | .user => some plan.concurrentRuns
    | .admin => none

end FactorSage
