import Mathlib.Tactic.Common

/-! # Exclusive ownership

A relation between owners and records says who holds what. It is exclusive if no record
has two owners. Dropping a record, handing one from one owner to another and acquiring one
that nobody holds keep it exclusive; the lemmas ask only that the new relation holds no
more than the move explains. Where the move of a record is to be known exactly, the record
is reassigned; an owner of one record that hands over all it holds reassigns it.
-/

namespace Ownership

variable {ι ρ : Type*} {H H' : ι → ρ → Prop} {i j : ι} {r : ρ}

def Exclusive (H : ι → ρ → Prop) : Prop := ∀ i j r, H i r → H j r → i = j

theorem Exclusive.drop (h : Exclusive H) (hsub : ∀ o x, H' o x → H o x) : Exclusive H' :=
  fun i j r hi hj => h i j r (hsub i r hi) (hsub j r hj)

theorem Exclusive.give (h : Exclusive H) (hi : H i r)
    (hsub : ∀ o x, H' o x → (o = j ∧ x = r) ∨ (H o x ∧ ¬ (o = i ∧ x = r))) : Exclusive H' := by
  intro o o' x ho ho'
  rcases hsub o x ho with ⟨rfl, rfl⟩ | ⟨h₁, hne₁⟩ <;>
    rcases hsub o' _ ho' with ⟨he, hx⟩ | ⟨h₂, hne₂⟩
  · exact he.symm
  · exact (hne₂ ⟨h _ _ _ h₂ hi, rfl⟩).elim
  · exact (hne₁ ⟨h _ _ _ h₁ (hx ▸ hi), hx⟩).elim
  · exact h o o' x h₁ h₂

theorem Exclusive.acquire (h : Exclusive H) (hr : ∀ o, ¬ H o r)
    (hsub : ∀ o x, H' o x → (o = j ∧ x = r) ∨ H o x) : Exclusive H' := by
  intro o o' x ho ho'
  rcases hsub o x ho with ⟨rfl, rfl⟩ | h₁ <;> rcases hsub o' _ ho' with ⟨he, hx⟩ | h₂
  · exact he.symm
  · exact (hr o' h₂).elim
  · exact (hr o (hx ▸ h₁)).elim
  · exact h o o' x h₁ h₂

/-- `r` is left to `k`, or to nobody, and every other record to whoever holds it. -/
structure Reassigned (H : ι → ρ → Prop) (r : ρ) (k : Option ι) (H' : ι → ρ → Prop) : Prop where
  others : ∀ o x, x ≠ r → (H' o x ↔ H o x)
  owner : ∀ o, H' o r ↔ k = some o

variable {k : Option ι} {x : ρ}

theorem Exclusive.reassigned (h : Exclusive H) (hi : H i r)
    (hiff : ∀ o x, H' o x ↔ (k = some o ∧ x = r) ∨ (H o x ∧ ¬ (o = i ∧ x = r))) :
    Reassigned H r k H' := by
  constructor
  case others =>
    intro o x hx
    simp [hiff, hx]
  case owner =>
    intro o
    rw [hiff]
    refine ⟨fun ho => ?_, fun hk => .inl ⟨hk, rfl⟩⟩
    rcases ho with ⟨hk, -⟩ | ⟨ho, hne⟩
    · exact hk
    · exact (hne ⟨h _ _ _ ho hi, rfl⟩).elim

theorem Reassigned.of_unowned (hr : ∀ o, ¬ H o r)
    (hiff : ∀ o x, H' o x ↔ (k = some o ∧ x = r) ∨ H o x) : Reassigned H r k H' := by
  constructor
  case others =>
    intro o x hx
    simp [hiff, hx]
  case owner =>
    intro o
    simp [hiff, hr o]

theorem Reassigned.exclusive (hr : Reassigned H r k H') (h : Exclusive H) : Exclusive H' := by
  intro o o' x ho ho'
  by_cases hx : x = r
  · subst hx
    exact Option.some.inj (((hr.owner o).mp ho).symm.trans ((hr.owner o').mp ho'))
  · exact h o o' x ((hr.others o x hx).mp ho) ((hr.others o' x hx).mp ho')

/-- `i` no longer holds anything, and what it held is left to `k` or to nobody. -/
structure Handover (H : ι → ρ → Prop) (i : ι) (k : Option ι) (H' : ι → ρ → Prop) : Prop where
  empty : ∀ x, ¬ H' i x
  taken : ∀ o, k = some o → ∀ x, H' o x ↔ H i x
  others : ∀ o, o ≠ i → k ≠ some o → ∀ x, H' o x ↔ H o x

theorem Handover.cases (hh : Handover H i k H') {o : ι} (ho : H' o x) :
    (k = some o ∧ H i x) ∨ (o ≠ i ∧ H o x) := by
  by_cases hk : k = some o
  · exact .inl ⟨hk, (hh.taken o hk x).mp ho⟩
  · have hoi : o ≠ i := fun he => hh.empty x (he ▸ ho)
    exact .inr ⟨hoi, (hh.others o hoi hk x).mp ho⟩

theorem Handover.unchanged (hh : Handover H i k H') (hno : ∀ x, ¬ H i x)
    (hfree : ∀ o, k = some o → ∀ x, ¬ H o x) (o : ι) (x : ρ) : H' o x ↔ H o x := by
  by_cases hk : k = some o
  · rw [hh.taken o hk x]
    exact iff_of_false (hno x) (hfree o hk x)
  · by_cases ho : o = i
    · subst ho
      exact iff_of_false (hh.empty x) (hno x)
    · exact hh.others o ho hk x

theorem Handover.reassigned (hh : Handover H i k H') (h : Exclusive H) (hi : H i r)
    (hone : ∀ x, H i x → x = r) (hfree : ∀ o, k = some o → ∀ x, ¬ H o x) :
    Reassigned H r k H' := by
  apply h.reassigned hi
  intro o x
  have hir : H i x ↔ x = r := ⟨hone x, fun hx => hx ▸ hi⟩
  by_cases hk : k = some o
  · simp [hk, hh.taken o hk x, hfree o hk x, hir]
  · by_cases ho : o = i
    · subst ho
      simp [hk, hh.empty x, hir]
    · simp [hk, ho, hh.others o ho hk x]

theorem Reassigned.held_iff (hr : Reassigned H r k H') :
    (∃ o, H' o x) ↔ (x = r ∧ k.isSome) ∨ (x ≠ r ∧ ∃ o, H o x) := by
  by_cases hx : x = r
  · subst hx
    simp [hr.owner, Option.isSome_iff_exists]
  · simp [hx, hr.others _ x hx]

end Ownership
