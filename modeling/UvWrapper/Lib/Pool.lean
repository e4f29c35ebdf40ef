import Mathlib.Data.Finset.Basic
import Mathlib.Data.List.Nodup
import Mathlib.Tactic.Common

/-! # Recycling pools

A pool keeps reusable records in a queue of free ones and an index of those in use,
each record being found there by its own address. Taking, creating and recycling
move a record between the two. A record is never in both, never twice in the queue
and, created records apart, never lost.
-/

namespace Recycling

/-- The queue of free records, the oldest first, and the records in use. -/
structure Pool (ρ : Type*) where
  free : List ρ
  busy : Finset ρ

namespace Pool

variable {ρ : Type*} [DecidableEq ρ] {p q : Pool ρ} {r x : ρ}

def take (p : Pool ρ) : Option (ρ × Pool ρ) :=
  match p.free with
  | [] => none
  | r :: rest => some (r, ⟨rest, insert r p.busy⟩)

def create (p : Pool ρ) (r : ρ) : Pool ρ := ⟨p.free, insert r p.busy⟩

/-- Return a record that is in use; `none` where the index does not hold it. -/
def recycle (p : Pool ρ) (r : ρ) : Option (Pool ρ) :=
  if r ∈ p.busy then some ⟨p.free ++ [r], p.busy.erase r⟩ else none

def Knows (p : Pool ρ) (x : ρ) : Prop := x ∈ p.free ∨ x ∈ p.busy

structure WellFormed (p : Pool ρ) : Prop where
  nodup : p.free.Nodup
  disjoint : ∀ x ∈ p.free, x ∉ p.busy

theorem take_cases (h : p.take = some (r, q)) :
    p.free = r :: q.free ∧ q.busy = insert r p.busy := by
  unfold take at h
  split at h
  · contradiction
  · next r' rest he =>
    obtain ⟨rfl, rfl⟩ : r' = r ∧ (⟨rest, insert r' p.busy⟩ : Pool ρ) = q := by simpa using h
    exact ⟨he, rfl⟩

theorem recycle_cases (h : p.recycle r = some q) :
    r ∈ p.busy ∧ q.free = p.free ++ [r] ∧ q.busy = p.busy.erase r := by
  unfold recycle at h
  split at h
  · next hr => obtain rfl := Option.some.inj h; exact ⟨hr, rfl, rfl⟩
  · contradiction

theorem recycle_of_mem (h : r ∈ p.busy) :
    p.recycle r = some ⟨p.free ++ [r], p.busy.erase r⟩ := if_pos h

namespace WellFormed

/-- A record taken was free until then, so nobody was using it. -/
theorem not_busy_of_take (hp : p.WellFormed) (h : p.take = some (r, q)) : r ∉ p.busy :=
  hp.disjoint r (by simp [(take_cases h).1])

theorem not_free_of_take (hp : p.WellFormed) (h : p.take = some (r, q)) : r ∉ q.free := by
  have hn := hp.nodup
  rw [(take_cases h).1] at hn
  exact (List.nodup_cons.mp hn).1

theorem take (hp : p.WellFormed) (h : p.take = some (r, q)) : q.WellFormed := by
  obtain ⟨hf, hb⟩ := take_cases h
  have hn := hp.nodup
  rw [hf] at hn
  constructor
  · exact (List.nodup_cons.mp hn).2
  · intro x hx
    have hxr : x ≠ r := fun he => hp.not_free_of_take h (he ▸ hx)
    have hxb : x ∉ p.busy := hp.disjoint x (by simp [hf, hx])
    simp [hb, hxr, hxb]

theorem create (hp : p.WellFormed) (h : r ∉ p.free) : (p.create r).WellFormed := by
  constructor
  · exact hp.nodup
  · intro x hx
    have hxr : x ≠ r := fun he => h (he ▸ hx)
    simp [Pool.create, hxr, hp.disjoint x hx]

theorem recycle (hp : p.WellFormed) (h : p.recycle r = some q) : q.WellFormed := by
  obtain ⟨hr, hf, hb⟩ := recycle_cases h
  have hrf : r ∉ p.free := fun hx => hp.disjoint r hx hr
  constructor
  · rw [hf]
    refine List.nodup_append.mpr ⟨hp.nodup, List.nodup_singleton r, ?_⟩
    rintro x hx y hy rfl
    exact hrf (List.mem_singleton.mp hy ▸ hx)
  · intro x hx
    rw [hf] at hx
    rcases List.mem_append.mp hx with hx | hx
    · simp [hb, hp.disjoint x hx]
    · simp [hb, List.mem_singleton.mp hx]

end WellFormed

theorem knows_take (h : p.take = some (r, q)) : q.Knows x ↔ p.Knows x := by
  obtain ⟨hf, hb⟩ := take_cases h
  simp only [Knows, hf, hb, List.mem_cons, Finset.mem_insert]
  tauto

theorem knows_recycle (h : p.recycle r = some q) : q.Knows x ↔ p.Knows x := by
  obtain ⟨hr, hf, hb⟩ := recycle_cases h
  simp only [Knows, hf, hb, List.mem_append, List.mem_singleton, Finset.mem_erase]
  rcases eq_or_ne x r with rfl | hx
  · simp [hr]
  · simp [hx]

theorem knows_create : (p.create r).Knows x ↔ x = r ∨ p.Knows x := by
  simp only [Knows, create, Finset.mem_insert]
  tauto

end Pool

end Recycling
