import Mathlib.Logic.Relation
import Mathlib.Data.List.Basic

/-! # Labelled systems and guarded runs

A system is an executable step function whose labels resolve every choice of the
environment. A run collects the events its steps emit, and a guard on states and
labels restricts the steps it may take. Invariants of histories and states are
established one step at a time; a trace is replayed by computation.
-/

namespace Transition

variable {σ α ε τ : Type*}

/-- A step is disabled where the step function gives `none`. -/
structure System (σ α ε : Type*) where
  init : σ → Prop
  step : σ → α → Option (σ × List ε)

def anyStep (σ α : Type*) : σ → α → Prop := fun _ _ => True

instance : DecidableRel (anyStep σ α) := fun _ _ => .isTrue trivial

namespace System

variable {M : System σ α ε} {G H : σ → α → Prop} {s s' s'' : σ} {tr tr' es : List ε} {a : α}

/-- A run from `s` whose steps all satisfy the guard, with the events it emits. -/
inductive Run (M : System σ α ε) (G : σ → α → Prop) (s : σ) : List ε → σ → Prop
  | nil : Run M G s [] s
  | snoc {tr es : List ε} {s' s'' : σ} {a : α} : Run M G s tr s' → G s' a →
      M.step s' a = some (s'', es) → Run M G s (tr ++ es) s''

/-- States reachable from an initial one, with the history that led to them. -/
def Reach (M : System σ α ε) (G : σ → α → Prop) (tr : List ε) (s : σ) : Prop :=
  ∃ s₀, M.init s₀ ∧ M.Run G s₀ tr s

theorem Run.mono (hG : ∀ s a, G s a → H s a) (h : M.Run G s tr s') : M.Run H s tr s' := by
  induction h with
  | nil => exact .nil
  | snoc _ hg hs ih => exact .snoc ih (hG _ _ hg) hs

theorem Run.trans (h : M.Run G s tr s') (h' : M.Run G s' tr' s'') :
    M.Run G s (tr ++ tr') s'' := by
  induction h' with
  | nil => simpa using h
  | snoc _ hg hs ih => simpa using Run.snoc ih hg hs

theorem Run.single (hg : G s a) (hs : M.step s a = some (s', es)) : M.Run G s es s' := by
  simpa using Run.snoc .nil hg hs

theorem Run.head (hg : G s a) (hs : M.step s a = some (s', es)) (h : M.Run G s' tr s'') :
    M.Run G s (es ++ tr) s'' :=
  (Run.single hg hs).trans h

/-- The step case may use that the run up to it is one. -/
theorem Run.induct {I : List ε → σ → Prop} (h : M.Run G s tr s') (h₀ : I [] s)
    (hstep : ∀ tr s₁ a s₂ es, M.Run G s tr s₁ → I tr s₁ → G s₁ a →
      M.step s₁ a = some (s₂, es) → I (tr ++ es) s₂) : I tr s' := by
  induction h with
  | nil => exact h₀
  | snoc hr hg hs ih => exact hstep _ _ _ _ _ hr ih hg hs

/-- A property of histories and states that every admitted step preserves. -/
theorem Run.invariant {I : List ε → σ → Prop} (h : M.Run G s tr s') (h₀ : I [] s)
    (hstep : ∀ tr s a s' es, I tr s → G s a → M.step s a = some (s', es) →
      I (tr ++ es) s') : I tr s' :=
  h.induct h₀ fun tr s a s' es _ => hstep tr s a s' es

theorem Run.stateInvariant {I : σ → Prop} (h : M.Run G s tr s') (h₀ : I s)
    (hstep : ∀ s a s' es, I s → G s a → M.step s a = some (s', es) → I s') : I s' :=
  h.invariant (I := fun _ => I) h₀ fun _ s a s' es => hstep s a s' es

theorem Reach.mono (hG : ∀ s a, G s a → H s a) (h : M.Reach G tr s) : M.Reach H tr s := by
  obtain ⟨s₀, h₀, hr⟩ := h
  exact ⟨s₀, h₀, hr.mono hG⟩

theorem Reach.start (h : M.init s) : M.Reach G [] s := ⟨s, h, .nil⟩

theorem Reach.trans (h : M.Reach G tr s) (h' : M.Run G s tr' s') :
    M.Reach G (tr ++ tr') s' := by
  obtain ⟨s₀, h₀, hr⟩ := h
  exact ⟨s₀, h₀, hr.trans h'⟩

theorem Reach.step (h : M.Reach G tr s) (hg : G s a) (hs : M.step s a = some (s', es)) :
    M.Reach G (tr ++ es) s' :=
  h.trans (.single hg hs)

/-- The step case may use that the state it starts from is reachable, hence every
invariant proved before. -/
theorem Reach.invariant {I : List ε → σ → Prop} (h : M.Reach G tr s)
    (hinit : ∀ s, M.init s → I [] s)
    (hstep : ∀ tr s a s' es, M.Reach G tr s → I tr s → G s a →
      M.step s a = some (s', es) → I (tr ++ es) s') : I tr s := by
  obtain ⟨s₀, h₀, hr⟩ := h
  exact hr.induct (hinit s₀ h₀) fun tr s a s' es hr => hstep tr s a s' es ⟨s₀, h₀, hr⟩

theorem Reach.stateInvariant {I : σ → Prop} (h : M.Reach G tr s)
    (hinit : ∀ s, M.init s → I s)
    (hstep : ∀ tr s a s' es, M.Reach G tr s → I s → G s a →
      M.step s a = some (s', es) → I s') : I s :=
  h.invariant (I := fun _ => I) hinit fun tr s a s' es => hstep tr s a s' es

def Always (M : System σ α ε) (G P : σ → α → Prop) : Prop :=
  ∀ tr s a s' es, M.Reach G tr s → G s a → M.step s a = some (s', es) → P s a

/-- From states satisfying `I` every admitted step keeps `I` and, seen through `abs`, is a
step of `R` or no step at all. -/
def Refines (M : System σ α ε) (G : σ → α → Prop) (I : σ → Prop) (abs : σ → τ)
    (R : τ → τ → Prop) : Prop :=
  ∀ s a s' es, I s → G s a → M.step s a = some (s', es) →
    I s' ∧ (abs s' = abs s ∨ R (abs s) (abs s'))

/-- A refinement carries whole runs to runs of the abstract relation. -/
theorem Refines.run {I : σ → Prop} {abs : σ → τ} {R : τ → τ → Prop}
    (hr : M.Refines G I abs R) (hi : I s) (h : M.Run G s tr s') :
    I s' ∧ Relation.ReflTransGen R (abs s) (abs s') := by
  refine h.stateInvariant (I := fun s' => I s' ∧ Relation.ReflTransGen R (abs s) (abs s'))
    ⟨hi, .refl⟩ ?_
  rintro s₁ a s₂ es ⟨h₁, hp⟩ hg hs
  obtain ⟨h₂, he | hR⟩ := hr _ _ _ _ h₁ hg hs
  · exact ⟨h₂, he ▸ hp⟩
  · exact ⟨h₂, hp.tail hR⟩

/-! ### Keeping a record of the past -/

section Observed

variable {γ : Type*} {g₀ : γ} {note : σ → α → List ε → γ → γ} {p p' : σ × γ}
  {K : σ × γ → α → Prop}

/-- The system `M` next to a record of what has happened. The record starts as `g₀` and
nothing but guards reads it; `note` brings it up to date with the state, the label and the
events of each step. -/
def observed (M : System σ α ε) (g₀ : γ) (note : σ → α → List ε → γ → γ) :
    System (σ × γ) α ε where
  init p := M.init p.1 ∧ p.2 = g₀
  step p a := (M.step p.1 a).map fun q => ((q.1, note p.1 a q.2 p.2), q.2)

theorem observed_step : (M.observed g₀ note).step p a = some (p', es) ↔
    M.step p.1 a = some (p'.1, es) ∧ p'.2 = note p.1 a es p.2 := by
  rw [observed, Option.map_eq_some_iff]
  constructor
  · rintro ⟨⟨s, fs⟩, hs, he⟩
    obtain ⟨rfl, rfl⟩ := Prod.mk.inj he
    exact ⟨hs, rfl⟩
  · rintro ⟨hs, he⟩
    exact ⟨_, hs, by rw [← he]⟩

/-- Every run has a record. -/
theorem Reach.observe (h : M.Reach G tr s) :
    ∃ g, (M.observed g₀ note).Reach (fun p => G p.1) tr (s, g) := by
  refine h.invariant (I := fun tr s => ∃ g, (M.observed g₀ note).Reach (fun p => G p.1) tr (s, g))
    (fun s hs => ⟨g₀, .start ⟨hs, rfl⟩⟩) ?_
  rintro tr s a s' es - ⟨g, hr⟩ hg hs
  exact ⟨note s a es g, hr.step (a := a) hg (observed_step.mpr ⟨hs, rfl⟩)⟩

/-- The record changes nothing. -/
theorem Reach.forget (h : (M.observed g₀ note).Reach K tr p) (hK : ∀ p a, K p a → G p.1 a) :
    M.Reach G tr p.1 := by
  refine h.invariant (I := fun tr p => M.Reach G tr p.1) (fun p hp => .start hp.1) ?_
  intro tr p a p' es _ hr hg hs
  exact hr.step (hK p a hg) (observed_step.mp hs).1

end Observed

/-- Replay labels from `s`, checking the guard before each step. -/
def exec (M : System σ α ε) (G : σ → α → Prop) [∀ s a, Decidable (G s a)] (s : σ) :
    List α → Option (σ × List ε)
  | [] => some (s, [])
  | a :: as =>
    if G s a then
      match M.step s a with
      | none => none
      | some (s', es) => (exec M G s' as).map fun p => (p.1, es ++ p.2)
    else none

theorem run_of_exec [∀ s a, Decidable (G s a)] {as : List α}
    (h : M.exec G s as = some (s', tr)) : M.Run G s tr s' := by
  induction as generalizing s tr with
  | nil =>
    obtain ⟨rfl, rfl⟩ : s = s' ∧ [] = tr := by simpa [exec] using h
    exact .nil
  | cons a as ih =>
    rw [exec] at h
    split at h
    · next hg =>
      split at h
      · contradiction
      · next s₁ es hs =>
        obtain ⟨⟨s₂, tr₂⟩, he, hp⟩ := Option.map_eq_some_iff.mp h
        obtain ⟨rfl, rfl⟩ := Prod.mk.inj hp
        exact .head hg hs (ih he)
    · contradiction

/-- A replay that ends in a state satisfying a decidable test gives a run to such a state. -/
theorem exists_run_of_exec [∀ s a, Decidable (G s a)] (as : List α) {p : σ → List ε → Bool}
    (h : (M.exec G s as).any (fun q => p q.1 q.2) = true) :
    ∃ tr s', M.Run G s tr s' ∧ p s' tr = true := by
  cases he : M.exec G s as with
  | none => simp [he] at h
  | some q => exact ⟨q.2, q.1, run_of_exec he, by simpa [he] using h⟩

end System

/-! ## The latest observation -/

section Latest

variable {β : Type*} {f : ε → Option β} {tr es : List ε}

def latest (f : ε → Option β) (tr : List ε) : Option β := (tr.filterMap f).getLast?

theorem latest_append : latest f (tr ++ es) = (latest f es).or (latest f tr) := by
  simp only [latest, List.filterMap_append, List.getLast?_append]

theorem latest_append_of_none (h : ∀ e ∈ es, f e = none) :
    latest f (tr ++ es) = latest f tr := by
  have hn : latest f es = none := by
    simpa [latest, List.filterMap_eq_nil_iff] using h
  rw [latest_append, hn, Option.none_or]

end Latest

/-! ## What passes through -/

section Passes

variable {β : Type*} {inp out : ε → Option β} {q q' q'' : List β} {es es' : List ε}

/-- What was under way, with what comes in, is what goes out, with what is under way
afterwards, all in order. -/
def Passes (inp out : ε → Option β) (q : List β) (es : List ε) (q' : List β) : Prop :=
  q ++ es.filterMap inp = es.filterMap out ++ q'

theorem Passes.trans (h : Passes inp out q es q') (h' : Passes inp out q' es' q'') :
    Passes inp out q (es ++ es') q'' := by
  calc q ++ (es ++ es').filterMap inp
      = (es.filterMap out ++ q') ++ es'.filterMap inp := by
        rw [List.filterMap_append, ← List.append_assoc, h]
    _ = (es ++ es').filterMap out ++ q'' := by
        rw [List.append_assoc, h', List.filterMap_append, List.append_assoc]

theorem Passes.of_eq (hin : ∀ e ∈ es, inp e = none) (hout : ∀ e ∈ es, out e = none)
    (hq : q' = q) : Passes inp out q es q' := by
  rw [Passes, List.filterMap_eq_nil_iff.mpr hin, List.filterMap_eq_nil_iff.mpr hout, hq,
    List.append_nil, List.nil_append]

end Passes

/-! ## What a cursor gathers -/

section Gathered

variable {γ β : Type*} {next : γ → ε → γ} {out : γ → ε → Option β} {c : γ} {tr es : List ε}

/-- What is read off a history by a cursor that its events move. -/
def gathered (next : γ → ε → γ) (out : γ → ε → Option β) : γ → List ε → List β
  | _, [] => []
  | c, e :: es => (out c e).toList ++ gathered next out (next c e) es

theorem gathered_append :
    gathered next out c (tr ++ es) =
      gathered next out c tr ++ gathered next out (tr.foldl next c) es := by
  induction tr generalizing c with
  | nil => rfl
  | cons e tr ih =>
    rw [List.cons_append, gathered, gathered, ih, List.append_assoc, List.foldl_cons]

theorem gathered_of_same (h : ∀ e ∈ es, next c e = c ∧ out c e = none) :
    es.foldl next c = c ∧ gathered next out c es = [] := by
  induction es with
  | nil => exact ⟨rfl, rfl⟩
  | cons e es ih =>
    obtain ⟨hnext, hout⟩ := h e List.mem_cons_self
    obtain ⟨hfold, hread⟩ := ih fun e' he' => h e' (List.mem_cons_of_mem _ he')
    rw [List.foldl_cons, gathered, hnext, hout, hfold, hread]
    exact ⟨rfl, rfl⟩

end Gathered

end Transition
