import Mathlib.Data.List.Basic
import Mathlib.Logic.Function.Basic
import Mathlib.Tactic.Common

/-! # One place changed

What is left of a statement about the values of a function where one of them is changed.
-/

namespace Update

open Function

variable {ι α β : Type*} [DecidableEq ι] {f : ι → α} {g : α → β} {i j : ι} {a b : α}

theorem of_update (ha : a ≠ b) (h : update f i a j = b) : j ≠ i ∧ f j = b := by
  rcases eq_or_ne j i with rfl | hj
  · exact (ha ((update_self ..).symm.trans h)).elim
  · exact ⟨hj, (update_of_ne hj ..).symm.trans h⟩

theorem update_eq_iff_of_ne (hi : f i ≠ b) (ha : a ≠ b) : update f i a j = b ↔ f j = b := by
  constructor
  · intro h
    exact (of_update ha h).2
  · rintro rfl
    have hj : j ≠ i := by
      rintro rfl
      exact hi rfl
    rw [update_of_ne hj]

theorem apply_update_of_eq (h : g a = g (f i)) : g (update f i a j) = g (f j) := by
  rcases eq_or_ne j i with rfl | hj
  · rw [update_self, h]
  · rw [update_of_ne hj]

theorem filterMap_update_of_notMem {f : ι → Option β} {l : List ι} {o : Option β} (h : i ∉ l) :
    l.filterMap (update f i o) = l.filterMap f :=
  List.filterMap_congr fun _ hx => update_of_ne (ne_of_mem_of_not_mem hx h) ..

end Update
