import Mathlib.Logic.Function.Basic
import Mathlib.Data.Option.Basic
import Mathlib.Tactic.Common

/-!
# Keys that expire

The keyspace of a store whose keys may carry a deadline. An entry is a value and the instant it
expires at, if it does; a key is gone once the clock is past its deadline.

* `put`, `deleteAll`, `retime`, `purge` — the four ways a keyspace changes: a write, a bulk delete,
  a new deadline for some keys (`none` makes them persistent), and the passing of time.
* `put_self`, `put_of_ne`, `retime_of`, … — the read-over-write equations.
-/

/-- A value, and the instant it expires at; `none` never does. -/
structure Expiring (α : Type) where
  value : α
  expiresAt : Option ℕ
  deriving DecidableEq

namespace Expiring

variable {α : Type}

/-- Whether the clock is not past the deadline. -/
def live (now : ℕ) (e : Expiring α) : Bool :=
  e.expiresAt.all (now ≤ ·)

end Expiring

/-- What each key holds. -/
abbrev ExpiringMap (κ α : Type) := κ → Option (Expiring α)

namespace ExpiringMap

variable {κ α : Type}

/-- The value under a key. -/
def value? (m : ExpiringMap κ α) (k : κ) : Option α := (m k).map Expiring.value

/-- A write replaces the value and the deadline of its key. -/
def put [DecidableEq κ] (m : ExpiringMap κ α) (k : κ) (a : α) (d : Option ℕ) : ExpiringMap κ α :=
  Function.update m k (some ⟨a, d⟩)

/-- Every key of `p` is deleted. -/
def deleteAll (m : ExpiringMap κ α) (p : κ → Prop) [DecidablePred p] : ExpiringMap κ α :=
  fun k => if p k then none else m k

/-- Every key of `p` that is present takes the deadline `d`. -/
def retime (m : ExpiringMap κ α) (p : κ → Prop) [DecidablePred p] (d : Option ℕ) :
    ExpiringMap κ α :=
  fun k => if p k then (m k).map ({ · with expiresAt := d }) else m k

/-- The keys still there at `now`. -/
def purge (m : ExpiringMap κ α) (now : ℕ) : ExpiringMap κ α :=
  fun k => (m k).filter (Expiring.live now)

section Put

variable [DecidableEq κ] (m : ExpiringMap κ α) {k k' : κ} (a : α) (d : Option ℕ)

@[simp] theorem put_self : m.put k a d k = some ⟨a, d⟩ := Function.update_self ..

theorem put_of_ne (h : k' ≠ k) : m.put k a d k' = m k' := Function.update_of_ne h ..

end Put

/-- A new deadline leaves every value. -/
@[simp] theorem value?_retime (m : ExpiringMap κ α) (p : κ → Prop) [DecidablePred p]
    (d : Option ℕ) (k : κ) : (m.retime p d).value? k = m.value? k := by
  unfold value? retime
  split
  · rw [Option.map_map]
    rfl
  · rfl

section Bulk

variable (m : ExpiringMap κ α) {p : κ → Prop} [DecidablePred p] {k : κ}

theorem retime_of (d : Option ℕ) (h : p k) :
    m.retime p d k = (m k).map ({ · with expiresAt := d }) := if_pos h

theorem retime_of_not (d : Option ℕ) (h : ¬ p k) : m.retime p d k = m k := if_neg h

end Bulk

section Purge

variable (m : ExpiringMap κ α) {k : κ} {d : Option ℕ} {now : ℕ}

/-- A key outlives an instant its deadline has not passed. -/
theorem purge_of_le (hd : ∀ e ∈ m k, e.expiresAt = d) (h : d.all (now ≤ ·) = true) :
    m.purge now k = m k := by
  unfold purge
  cases hk : m k with
  | none => rfl
  | some e => rw [Option.filter_some, Expiring.live, hd e hk, h, if_pos rfl]

theorem purge_of_lt (hd : ∀ e ∈ m k, e.expiresAt = d) (h : d.all (now ≤ ·) = false) :
    m.purge now k = none := by
  unfold purge
  cases hk : m k with
  | none => rfl
  | some e => rw [Option.filter_some, Expiring.live, hd e hk, h, if_neg Bool.false_ne_true]

end Purge

end ExpiringMap
