import UvWrapper.Lib.System

/-! # Systems seen through one another

Each step of one system is matched by a run of another between the images of the two
states. What can be seen of the two histories is then the same, and whatever holds of the
histories and states of the second holds of what is seen of the first.
-/

namespace Transition.System

variable {σ α ε τ β δ ω : Type*} {M : System σ α ε} {N : System τ β δ} {G : σ → α → Prop}
  {H : τ → β → Prop} {I : σ → Prop} {abs : σ → τ} {see : ε → Option ω} {see' : δ → Option ω}
  {s : σ} {t t' : τ} {tr : List ε} {fs fs' : List δ} {b : β}

/-- From states satisfying `I` every admitted step keeps `I`, and a run of `N` leads from the
image of the state to that of the next, with the same events seen. -/
def Matches (M : System σ α ε) (N : System τ β δ) (G : σ → α → Prop) (H : τ → β → Prop)
    (I : σ → Prop) (abs : σ → τ) (see : ε → Option ω) (see' : δ → Option ω) : Prop :=
  ∀ s a s' es, I s → G s a → M.step s a = some (s', es) →
    I s' ∧ ∃ fs, N.Run H (abs s) fs (abs s') ∧ fs.filterMap see' = es.filterMap see

/-- A match of the steps carries whole histories over. -/
theorem Matches.reach (hm : M.Matches N G H I abs see see')
    (hinit : ∀ s, M.init s → I s ∧ N.init (abs s)) (h : M.Reach G tr s) :
    I s ∧ ∃ fs, N.Reach H fs (abs s) ∧ fs.filterMap see' = tr.filterMap see := by
  refine h.invariant (I := fun tr s => I s ∧ ∃ fs, N.Reach H fs (abs s) ∧
    fs.filterMap see' = tr.filterMap see) ?_ ?_
  · intro s hs
    obtain ⟨hi, hn⟩ := hinit s hs
    exact ⟨hi, [], .start hn, rfl⟩
  · rintro tr s a s' es - ⟨hi, fs, hr, he⟩ hg hs
    obtain ⟨hi', gs, hrun, hgs⟩ := hm s a s' es hi hg hs
    exact ⟨hi', fs ++ gs, hr.trans hrun, by rw [List.filterMap_append, he, hgs,
      List.filterMap_append]⟩

theorem Run.of_eq (h : t' = t) : N.Run H t [] t' := h ▸ .nil

theorem Run.of_step (hg : H t b) (hs : N.step t b = some (t', fs)) : N.Run H t fs t' :=
  .single hg hs

end Transition.System
