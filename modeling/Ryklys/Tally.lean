import Mathlib.Algebra.BigOperators.Group.Finset.Piecewise
import Mathlib.Algebra.Order.BigOperators.Group.Finset
import Mathlib.Data.Fintype.BigOperators

/-!
# Sums over a family of places

What the places of a finite family hold, weighed and added up. A step that
changes one place changes the sum by what it puts there (`total_update`).
-/

namespace Tally

variable {ι α : Type*} [Fintype ι] (weight : α → Nat) (place : ι → α)

def total : Nat := ∑ i, weight (place i)

theorem total_update [DecidableEq ι] (i : ι) (a : α) :
    total weight (Function.update place i a) + weight (place i) = total weight place + weight a := by
  have happ : (fun k => weight (Function.update place i a k)) =
      Function.update (fun k => weight (place k)) i (weight a) := by
    funext k
    exact Function.apply_update (fun _ a => weight a) place i a k
  rw [total, total, happ, Finset.sum_update_of_mem (Finset.mem_univ i),
    ← Finset.add_sum_erase _ _ (Finset.mem_univ i), Finset.sdiff_singleton_eq_erase]
  omega

theorem le_total (i : ι) : weight (place i) ≤ total weight place :=
  Finset.single_le_sum (fun k _ => Nat.zero_le (weight (place k))) (Finset.mem_univ i)

theorem total_add (weight' : α → Nat) :
    total (fun a => weight a + weight' a) place = total weight place + total weight' place :=
  Finset.sum_add_distrib

variable {weight place}

theorem total_eq_zero : total weight place = 0 ↔ ∀ i, weight (place i) = 0 := by
  rw [total, Finset.sum_eq_zero_iff]
  exact ⟨fun h i => h i (Finset.mem_univ i), fun h i _ => h i⟩

end Tally
