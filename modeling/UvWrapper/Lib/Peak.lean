import Mathlib.Data.List.Basic
import Mathlib.Data.List.Induction
import Mathlib.Order.Bounds.Basic

/-! # High-water marks

The largest value that a measure of histories has taken on the way to the present one, and
how it moves as the history grows.
-/

namespace HighWater

variable {ε : Type*} {f : List ε → ℕ} {tr es : List ε} {e : ε} {n : ℕ}

/-- `n` is the largest value of `f` on a prefix of the history. -/
def Peak (f : List ε → ℕ) (tr : List ε) (n : ℕ) : Prop :=
  IsGreatest {m | ∃ pre, pre <+: tr ∧ f pre = m} n

theorem peak_nil : Peak f [] (f []) := by
  constructor
  · exact ⟨[], List.nil_prefix, rfl⟩
  · rintro m ⟨pre, hp, rfl⟩
    rw [List.prefix_nil.mp hp]

theorem Peak.le (h : Peak f tr n) : f tr ≤ n := h.2 ⟨tr, List.prefix_rfl, rfl⟩

theorem Peak.concat (h : Peak f tr n) (e : ε) :
    Peak f (tr ++ [e]) (max n (f (tr ++ [e]))) := by
  obtain ⟨⟨pre, hp, hn⟩, hle⟩ := h
  constructor
  · rcases le_total n (f (tr ++ [e])) with hm | hm
    · exact ⟨tr ++ [e], List.prefix_rfl, (max_eq_right hm).symm⟩
    · exact ⟨pre, hp.trans (List.prefix_append ..), hn.trans (max_eq_left hm).symm⟩
  · rintro m ⟨q, hq, rfl⟩
    rcases List.prefix_concat_iff.mp hq with rfl | hq
    · exact le_max_right ..
    · exact (hle ⟨q, hq, rfl⟩).trans (le_max_left ..)

theorem Peak.concat_of_le (h : Peak f tr n) (hle : f (tr ++ [e]) ≤ n) :
    Peak f (tr ++ [e]) n := by
  have hc := h.concat e
  rwa [max_eq_left hle] at hc

theorem Peak.append (h : Peak f tr n) (he : ∀ tr', ∀ e ∈ es, f (tr' ++ [e]) = f tr') :
    Peak f (tr ++ es) n := by
  induction es using List.reverseRecOn with
  | nil => simpa using h
  | append_singleton es e ih =>
    rw [← List.append_assoc]
    have hp := ih fun tr' x hx => he tr' x (List.mem_append_left _ hx)
    apply hp.concat_of_le
    rw [he _ e (by simp)]
    exact hp.le

end HighWater
