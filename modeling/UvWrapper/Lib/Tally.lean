import Mathlib.Data.Finset.Card
import Mathlib.Logic.Function.Basic
import Mathlib.Tactic.Common

/-! # Counting places

How many places hold a value of some kind, where each step changes the value of one place.
-/

namespace Counting

open Function

variable {ι α : Type*} {p : α → Bool} {f f' : ι → α} {i : ι} {a : α} {n : ℕ}

/-- Exactly `n` places hold a value of the kind `p`. -/
def Tally (p : α → Bool) (f : ι → α) (n : ℕ) : Prop :=
  ∃ places : Finset ι, (∀ i, i ∈ places ↔ p (f i) = true) ∧ places.card = n

theorem tally_zero (h : ∀ i, p (f i) = false) : Tally p f 0 := by
  refine ⟨∅, fun i => ?_, Finset.card_empty⟩
  simp [h i]

variable [DecidableEq ι]

theorem Tally.replace (h : Tally p f n) (i : ι) (a : α) :
    ∃ m, Tally p (update f i a) m ∧ m + (p (f i)).toNat = n + (p a).toNat := by
  obtain ⟨places, hmem, rfl⟩ := h
  cases ha : p a with
  | false =>
    refine ⟨_, ⟨places.erase i, fun j => ?_, rfl⟩, ?_⟩
    · rcases eq_or_ne j i with rfl | hj
      · simp [ha]
      · simp [hj, hmem]
    · cases hi : p (f i) with
      | false =>
        have hnot : i ∉ places := by simp [hmem, hi]
        rw [Finset.erase_eq_of_notMem hnot]
      | true => exact Finset.card_erase_add_one ((hmem i).mpr hi)
  | true =>
    refine ⟨_, ⟨insert i places, fun j => ?_, rfl⟩, ?_⟩
    · rcases eq_or_ne j i with rfl | hj
      · simp [ha]
      · simp [hj, hmem]
    · cases hi : p (f i) with
      | false =>
        have hnot : i ∉ places := by simp [hmem, hi]
        exact Finset.card_insert_of_notMem hnot
      | true => rw [Finset.insert_eq_of_mem ((hmem i).mpr hi)]

theorem Tally.put (h : Tally p f n)
    (hf : f' = f ∨ ∃ i, p (f i) = false ∧ f' = update f i a) :
    ∃ m ≤ n + (p a).toNat, Tally p f' m := by
  rcases hf with rfl | ⟨i, hi, rfl⟩
  · exact ⟨n, Nat.le_add_right .., h⟩
  · obtain ⟨m, hm, hle⟩ := h.replace i a
    rw [hi] at hle
    exact ⟨m, hle.le, hm⟩

end Counting
