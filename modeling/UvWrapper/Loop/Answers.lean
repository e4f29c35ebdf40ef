import UvWrapper.Loop.Threads

/-! # What `AddReq` answers

`AddReq` has two tests, of `m_bRunning` and, behind the lock, of the free handles. What it
returns is all that the functions above it know of the fate of their requests.
-/

namespace UvWrapper.Uvloop

open Transition

variable {Cb : Type} {s s' : Threads Cb} {es : List (Event Cb)} {t : ℕ} {fill : Fill Cb}

def Event.answer : Event Cb → Option LoopErr
  | .accepted _ _ => some .noErr
  | .refused err => some err
  | .asyncSend _ | .ran _ _ | .recycled _ | .badFunctionCall _ | .derefEnd _ => none

/-- Success is reported only where the loop has taken every request. -/
def OnlyIfTaken (results : List Bool) (answers : List LoopErr) : Prop :=
  true ∈ results → ∀ err ∈ answers, err = .noErr

section Systems

variable {σ α ε : Type} (M : System σ α ε) (result : ε → Option Bool)
  (answer : ε → Option LoopErr)

def Truthful : Prop :=
  ∀ tr s a s' es, M.Reach (anyStep σ α) tr s → M.step s a = some (s', es) →
    OnlyIfTaken (es.filterMap result) (es.filterMap answer)

/-- From every state, reached or not, it is so of the steps with `P` and of no others. -/
def TruthfulWhen (P : σ → α → Prop) : Prop :=
  ∀ s a s' es, M.step s a = some (s', es) →
    (OnlyIfTaken (es.filterMap result) (es.filterMap answer) ↔ P s a)

variable {M result answer}

theorem TruthfulWhen.always {P : σ → α → Prop} (h : TruthfulWhen M result answer P) :
    Truthful M result answer ↔ M.Always (anyStep σ α) P := by
  constructor
  · intro ht tr s a s' es hr _ hs
    exact (h s a s' es hs).mp (ht tr s a s' es hr hs)
  · intro ha tr s a s' es hr hs
    exact (h s a s' es hs).mpr (ha tr s a s' es hr trivial hs)

end Systems

theorem onlyIfTaken_of_notMem {results : List Bool} {answers : List LoopErr}
    (h : true ∉ results) : OnlyIfTaken results answers := fun hr => (h hr).elim

theorem onlyIfTaken_single {ok : Bool} {err : LoopErr} :
    OnlyIfTaken [ok] [err] ↔ (ok = true → err = .noErr) := by
  simp only [OnlyIfTaken, List.mem_singleton, forall_eq]
  rw [eq_comm]

/-! ## The loop's events among those of a class -/

section Classes

variable {ε : Type} {loop : Event Cb → ε} {result : ε → Option Bool}
  {answer : ε → Option LoopErr} {les : List (Event Cb)} {e : ε} {ok : Bool} {err : LoopErr}

theorem filterMap_loop (hr : ∀ e, result (loop e) = none) (les : List (Event Cb)) :
    (les.map loop).filterMap result = [] := by
  rw [List.filterMap_map]
  exact List.filterMap_eq_nil_iff.mpr fun e _ => hr e

theorem onlyIfTaken_end (hr : ∀ e, result (loop e) = none)
    (ha : ∀ e, answer (loop e) = e.answer) (h : les.filterMap Event.answer = [err])
    (he : result e = some ok) (hn : answer e = none) :
    OnlyIfTaken ((les.map loop ++ [e]).filterMap result)
      ((les.map loop ++ [e]).filterMap answer) ↔ (ok = true → err = .noErr) := by
  have hanswers : (les.map loop).filterMap answer = [err] := by
    rw [List.filterMap_map, ← h]
    exact congrArg (List.filterMap · les) (funext ha)
  rw [List.filterMap_append, List.filterMap_append, filterMap_loop hr, hanswers,
    List.filterMap_cons_some he, List.filterMap_cons_none hn]
  exact onlyIfTaken_single

end Classes

theorem answers_of_call (hs : s.step (.call t fill) = some (s', es)) :
    es.filterMap Event.answer = if s.loop.bRunning then [] else [.stop] := by
  cases Threads.step_cases hs with
  | called _ _ _ hr => rw [if_pos hr]; rfl
  | refused _ _ _ hr => rw [if_neg (Bool.eq_false_iff.mp hr)]; rfl

theorem answers_of_lock (hs : s.step (.lock t) = some (s', es)) :
    es.filterMap Event.answer = [if s.loop.dAsync = [] then .busy else .noErr] := by
  cases Threads.step_cases hs with
  | lock _ fill hc =>
    rcases submit_cases s.loop fill with ⟨hd, he⟩ | ⟨h, l', ht, he⟩
    · rw [he, if_pos hd]
      rfl
    · have hd : s.loop.dAsync ≠ [] := by
        intro hd
        rw [takeAsync_eq_none.mpr hd] at ht
        cases ht
      rw [he, if_neg hd]
      rfl

end UvWrapper.Uvloop
