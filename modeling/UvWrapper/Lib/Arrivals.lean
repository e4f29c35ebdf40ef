import Mathlib.Data.List.Nodup
import UvWrapper.Lib.Update

/-! # What waits, in the order of its arrival

Places hold at most one thing each. A list of the places that hold something, in the order in
which the things arrived, makes a queue of them: what arrives at a free place goes to the end
of the list, what is taken from a place leaves it.
-/

namespace Arrivals

open Function Update

variable {ι β : Type*} {f : ι → Option β} {l : List ι} {i : ι}

/-- The list has every place that holds something once, and no other. -/
structure Lists (f : ι → Option β) (l : List ι) : Prop where
  nodup : l.Nodup
  mem : ∀ i, i ∈ l ↔ (f i).isSome

theorem lists_nil (h : ∀ i, f i = none) : Lists f [] where
  nodup := List.nodup_nil
  mem i := by simp [h i]

theorem Lists.notMem (h : Lists f l) (hi : f i = none) : i ∉ l := by
  rw [h.mem, hi]
  exact Bool.false_ne_true

theorem Lists.filterMap_eq_nil (h : Lists f l) : l.filterMap f = [] ↔ ∀ i, f i = none := by
  rw [List.filterMap_eq_nil_iff]
  constructor
  · intro hl i
    by_contra hi
    exact hi (hl i ((h.mem i).mpr (Option.isSome_iff_ne_none.mpr hi)))
  · exact fun hl i _ => hl i

variable [DecidableEq ι]

theorem Lists.arrive (h : Lists f l) (hi : f i = none) (b : β) :
    Lists (update f i (some b)) (l ++ [i]) ∧
      (l ++ [i]).filterMap (update f i (some b)) = l.filterMap f ++ [b] := by
  have hnot := h.notMem hi
  constructor
  · constructor
    · exact List.nodup_append.mpr ⟨h.nodup, List.nodup_singleton i, by
        rintro x hx y hy rfl
        exact hnot (List.mem_singleton.mp hy ▸ hx)⟩
    · intro j
      rw [List.mem_append, List.mem_singleton, h.mem]
      rcases eq_or_ne j i with rfl | hj
      · simp
      · simp [hj]
  · rw [List.filterMap_append, filterMap_update_of_notMem hnot]
    simp

theorem Lists.leave (h : Lists f l) (hi : (f i).isSome → l.head? = some i) :
    Lists (update f i none) (l.erase i) ∧
      l.filterMap f = (f i).toList ++ (l.erase i).filterMap (update f i none) := by
  cases hf : f i with
  | none =>
    have hnot := h.notMem hf
    rw [List.erase_of_not_mem hnot, ← hf, update_eq_self]
    exact ⟨h, by simp [hf]⟩
  | some b =>
    obtain ⟨rest, rfl⟩ := List.head?_eq_some_iff.mp (hi (by rw [hf]; rfl))
    obtain ⟨hnot, hnd⟩ := List.nodup_cons.mp h.nodup
    rw [List.erase_cons_head, filterMap_update_of_notMem hnot]
    refine ⟨⟨hnd, fun j => ?_⟩, by simp [hf]⟩
    rcases eq_or_ne j i with rfl | hj
    · simpa using hnot
    · rw [update_of_ne hj, ← h.mem, List.mem_cons]
      exact ⟨.inr, fun hm => hm.resolve_left hj⟩

end Arrivals
