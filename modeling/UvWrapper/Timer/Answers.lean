import UvWrapper.Timer.Flag
import UvWrapper.Loop.Answers

/-! # What the timer's functions return

`StopTimer`, and `startTimer` where it adds a start, return what `AddReq` has answered. Where
`startTimer(true)` asks for a restart it returns true, whatever has become of the request.
-/

namespace UvWrapper.Uvtimer

open Transition Uvloop

variable {s s' : Uvtimer} {a : Act} {es : List Event} {t : ℕ} {f : Api} {req : Req}

def Event.result : Event → Option Bool
  | .returned _ _ ok => some ok
  | _ => none

def Event.answer : Event → Option LoopErr
  | .loop e => e.answer
  | _ => none

/-- Where `startTimer(true)` asks for a restart, the loop takes the request. -/
def restartTaken (s : Uvtimer) : Act → Prop
  | .addReq t => s.call t = .restarting → s.ploop = true → s.threads.loop.bRunning = true
  | .lock t => s.call t = .restarting → s.threads.loop.dAsync ≠ []
  | _ => True

theorem result_loop (les : List (Uvloop.Event Req)) :
    (les.map Event.loop).filterMap Event.result = [] := filterMap_loop (fun _ => rfl) les

theorem Caller.result_honest {c : Caller} {err : LoopErr} :
    (c.result err = true → err = .noErr) ↔ (c = .restarting → err = .noErr) := by
  cases c <;> simp [Caller.result]

theorem onlyIfTaken_finish {les : List (Uvloop.Event Req)} {err : LoopErr}
    (h : les.filterMap Uvloop.Event.answer = [err])
    (he : es = les.map .loop ++ [.returned t f ((s.call t).result err)]) :
    OnlyIfTaken (es.filterMap Event.result) (es.filterMap Event.answer) ↔
      (s.call t = .restarting → err = .noErr) := by
  rw [he]
  apply Iff.trans _ Caller.result_honest
  exact onlyIfTaken_end (fun _ => rfl) (fun _ => rfl) h rfl rfl

theorem PerformCases.result (h : PerformCases s s' es) : es.filterMap Event.result = [] := by
  cases h with
  | startAgain loop les => exact result_loop les
  | _ => rfl

theorem events_of_fault (hs : s.step (.addReq t) = some (s', es))
    (hc : (s.call t).serves = some (f, req)) (ho : req.own.isSome = true) (hp : s.ploop = false) :
    es = [.fault] := by
  simp only [step, hc, ho, hp, Bool.not_false, Bool.and_self] at hs
  obtain ⟨-, hs⟩ := Option.ite_none_left_eq_some.mp hs
  exact (Prod.mk.inj (Option.some.inj hs)).2.symm

/-- The functions of the timer report success only for requests that the loop has taken,
exactly if that is so where they ask for a restart. -/
theorem truthfulWhen : TruthfulWhen timed Event.result Event.answer restartTaken := by
  intro s a s' es (hs : s.step a = some (s', es))
  have hquiet : es.filterMap Event.result = [] →
      OnlyIfTaken (es.filterMap Event.result) (es.filterMap Event.answer) := by
    intro h
    rw [h]
    exact onlyIfTaken_of_notMem List.not_mem_nil
  cases step_cases hs with
  | registerTimer | setTimer | force | expire | expireFault =>
    exact iff_of_true (hquiet rfl) trivial
  | loop a b th les hl =>
    apply iff_of_true (hquiet (result_loop les))
    cases hl <;> trivial
  | request t f =>
    refine iff_of_true (fun _ err he => ?_) trivial
    split at he <;> cases he
  | addReqFault t hp =>
    apply iff_of_true (hquiet rfl)
    intro _ hp'
    cases hp.symm.trans hp'
  | addReq t f req th les _ _ hr => exact iff_of_true (hquiet (result_loop les)) fun _ _ => hr
  | refused t f req th les hc ht hr =>
    have ha : les.filterMap Uvloop.Event.answer = [.stop] := by
      rw [answers_of_call ht, hr]
      rfl
    apply (onlyIfTaken_finish ha rfl).trans
    constructor
    · intro h hcall
      cases h hcall
    · intro h hcall
      have hp : s.ploop = true := by
        by_contra hp
        obtain ⟨rfl, rfl⟩ : .startTimer true = f ∧ .timerStop = req := by
          simpa [hcall, Caller.serves] using hc
        have hm := List.mem_append_right (les.map Event.loop)
          (List.mem_singleton_self (Event.returned t (.startTimer true) ((s.call t).result .stop)))
        rw [events_of_fault hs hc rfl (by simpa using hp)] at hm
        cases List.mem_singleton.mp hm
      cases hr.symm.trans (h hcall hp)
  | lock t f req th les err hc ht he =>
    have ha : les.filterMap Uvloop.Event.answer = [err] := by rw [answers_of_lock ht, he]
    apply (onlyIfTaken_finish ha rfl).trans
    rw [he]
    apply imp_congr_right
    simp
  | lockStop t th les hc =>
    apply iff_of_true (hquiet (result_loop les))
    intro hcall
    cases hcall ▸ hc
  | turn a th les => exact iff_of_true (hquiet (result_loop les)) trivial
  | perform s' es hp => exact iff_of_true (hquiet hp.result) trivial

theorem not_truthful : ¬ Truthful timed Event.result Event.answer := by
  intro h
  obtain ⟨tr, s, hr, hp⟩ := System.exists_run_of_exec (M := timed) (G := anyStep Uvtimer Act)
    (s := create (fun _ => .loopStop) false)
    (startRequested 10 ++ execute 0 2 ++
      (List.range asyncHandles).flatMap (fun i => [.request 1 (.other .tcpWrite i), .addReq 1,
        .lock 1]) ++ [.request 1 (.startTimer true), .force 1, .addReq 1])
    (p := fun s _ => decide (s.call 1 = .restarting ∧ s.threads.loop.dAsync = [] ∧
      (s.step (.lock 1)).isSome = true))
    (by decide +kernel)
  obtain ⟨hc, hd, hs⟩ := of_decide_eq_true hp
  obtain ⟨⟨s', es⟩, hs⟩ := Option.isSome_iff_exists.mp hs
  exact truthfulWhen.always.mp h tr s (.lock 1) s' es ⟨_, ⟨_, _, rfl⟩, hr⟩ trivial hs hc hd

end UvWrapper.Uvtimer
