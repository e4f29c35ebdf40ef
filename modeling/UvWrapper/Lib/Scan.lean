import Mathlib.Data.List.Rotate
import UvWrapper.Lib.Update

/-! # What a scan finds

A scan visits the places below `n` in turn, again and again. What waits at the places, read
in the order in which a scan that has reached `c` will visit them, is a queue: passing a
place takes from its front, and what is put down at a place adds to its end if nothing waits
at the places that are visited after it.
-/

namespace Scan

open Function Update

variable {β : Type*} {n c h : ℕ} {f : ℕ → Option β} {b : β}

/-- The places in the order of their next visits. -/
def order (n c : ℕ) : List ℕ := (List.range n).rotate c

def beyond (n c h : ℕ) : List ℕ := ((order n c).dropWhile (· ≠ h)).tail

def found (n c : ℕ) (f : ℕ → Option β) : List β := (order n c).filterMap f

theorem nodup_order : (order n c).Nodup := List.nodup_rotate.mpr List.nodup_range

theorem mem_order : h ∈ order n c ↔ h < n := by
  rw [order, List.mem_rotate, List.mem_range]

theorem order_wrap : order n n = order n 0 := by
  have hlen := List.rotate_length (List.range n)
  rw [List.length_range] at hlen
  rw [order, hlen, order, List.rotate_zero]

theorem order_pass (hc : c < n) :
    ∃ rest, order n c = c :: rest ∧ order n (c + 1) = rest ++ [c] := by
  have hhead : (order n c).head? = some c := by
    rw [order, List.head?_rotate (by simpa using hc), List.getElem?_range hc]
  obtain ⟨rest, hrest⟩ := List.head?_eq_some_iff.mp hhead
  refine ⟨rest, hrest, ?_⟩
  have hnext : order n (c + 1) = (order n c).rotate 1 := (List.rotate_rotate _ c 1).symm
  rw [hnext, hrest, List.rotate_cons_succ, List.rotate_zero]

theorem order_beyond (hh : h < n) :
    ∃ before, order n c = before ++ h :: beyond n c h ∧ h ∉ before ∧ h ∉ beyond n c h := by
  obtain ⟨before, after, hsplit⟩ := List.append_of_mem (mem_order (n := n) (c := c).mpr hh)
  have hnd := nodup_order (n := n) (c := c)
  rw [hsplit, List.nodup_append] at hnd
  obtain ⟨-, hafter, hdisj⟩ := hnd
  have hb : h ∉ before := fun hm => hdisj h hm h List.mem_cons_self rfl
  have hdrop : (before ++ h :: after).dropWhile (· ≠ h) = h :: after := by
    rw [List.dropWhile_append_of_pos fun x hx => by simpa using fun e : x = h => hb (e ▸ hx)]
    simp
  have hbeyond : beyond n c h = after := by rw [beyond, hsplit, hdrop, List.tail_cons]
  exact ⟨before, by rw [hbeyond, hsplit], hb, by rw [hbeyond]; exact (List.nodup_cons.mp hafter).1⟩

theorem found_wrap : found n n f = found n 0 f := by rw [found, order_wrap, found]

theorem found_pass (hc : c < n) :
    found n c f = (f c).toList ++ found n (c + 1) (update f c none) := by
  obtain ⟨rest, hrest, hnext⟩ := order_pass hc
  have hnot : c ∉ rest := (List.nodup_cons.mp (hrest ▸ nodup_order)).1
  have htake : found n (c + 1) (update f c none) = rest.filterMap f := by
    rw [found, hnext, List.filterMap_append, filterMap_update_of_notMem hnot]
    simp
  rw [htake, found, hrest, List.filterMap_cons]
  cases f c <;> rfl

theorem found_skip (hc : c < n) (hf : f c = none) : found n (c + 1) f = found n c f := by
  have hkeep : update f c none = f := by rw [← hf, update_eq_self]
  rw [found_pass hc, hkeep, hf, Option.toList_none, List.nil_append]

theorem found_update (hh : h < n) (hf : f h = none) :
    ∃ front, found n c f = front ++ (beyond n c h).filterMap f ∧
      found n c (update f h (some b)) = front ++ b :: (beyond n c h).filterMap f := by
  obtain ⟨before, hsplit, hbefore, hbeyond⟩ := order_beyond (c := c) hh
  refine ⟨before.filterMap f, ?_, ?_⟩
  · rw [found, hsplit, List.filterMap_append, List.filterMap_cons, hf]
  · rw [found, hsplit, List.filterMap_append, List.filterMap_cons,
      filterMap_update_of_notMem hbefore, filterMap_update_of_notMem hbeyond, update_self]

theorem found_put_iff (hh : h < n) (hf : f h = none) (hb : b ∉ found n c f) :
    found n c (update f h (some b)) = found n c f ++ [b] ↔ ∀ x ∈ beyond n c h, f x = none := by
  obtain ⟨front, hfound, hput⟩ := found_update (c := c) (b := b) hh hf
  rw [hfound, List.mem_append, not_or] at hb
  rw [← List.filterMap_eq_nil_iff, hput, hfound, List.append_assoc, List.append_cancel_left_eq]
  cases hrest : (beyond n c h).filterMap f with
  | nil => simp
  | cons x rest =>
    have hx : b ≠ x := fun e => hb.2 (by rw [hrest, e]; exact List.mem_cons_self)
    simp [hx]

end Scan
