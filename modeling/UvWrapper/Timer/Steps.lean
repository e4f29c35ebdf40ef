import UvWrapper.Timer.Basic

/-! # Inversion of the timer's steps

`StepCases` lists what each label does with the conditions under which it is enabled, with a
list of its own for the loop thread in the functions of the timer.
-/

namespace UvWrapper.Uvtimer

open Function

inductive LoopAct (s : Uvtimer) : Act → Uvloop.Act Req → Prop
  | run (t : ℕ) : s.Idle t → LoopAct s (.run t) (.run t)
  | setRunning (t : ℕ) : LoopAct s (.setRunning t) (.setRunning t)
  | stop (t : ℕ) : s.Idle t → LoopAct s (.stop t) (.call t .stop)

inductive PerformCases (s : Uvtimer) : Uvtimer → List Event → Prop
  | timerStart : s.body = .timerStart →
      PerformCases s { s with timer := .inited true s.mRepeat, body := .started }
        [.timerInit s.timer.active, .timerStart s.mDelay s.mRepeat]
  | started : s.body = .started →
      PerformCases s { s with bTimerStarted := true, body := .none } []
  | timerStop (active : Bool) (period : ℕ) : s.body = .timerStop →
      s.timer = .inited active period →
      PerformCases s { s with timer := .inited false period, body := .stopped } [.timerStop]
  | timerStopRaw : s.body = .timerStop → s.timer = .raw false →
      PerformCases s { s with body := .stopped } [.timerStop]
  | timerStopFault : s.body = .timerStop → s.timer = .raw true →
      PerformCases s { s with crashed := true } [.fault]
  | stopped : s.body = .stopped →
      PerformCases s { s with bTimerStarted := false, body := .testing } []
  | done : s.body = .testing → s.bRestartTimer = false →
      PerformCases s { s with body := .none } []
  | restart : s.body = .testing → s.bRestartTimer = true →
      PerformCases s { s with body := .restarting } []
  | restarting : s.body = .restarting →
      PerformCases s { s with bRestartTimer := false, body := .startingAgain } []
  | startedAlready : s.body = .startingAgain → s.bTimerStarted = true →
      PerformCases s { s with body := .none } []
  | startFault : s.body = .startingAgain → s.ploop = false →
      PerformCases s { s with crashed := true } [.fault]
  | startAgain (loop : Uvloop Req) (les : List (Uvloop.Event Req)) : s.body = .startingAgain →
      s.threads.loop.bRunning = true →
      s.threads.loop.submit (.addReq .timerStart (some .timerStart)) = (loop, les) →
      PerformCases s { s with threads := { s.threads with loop }, body := .none }
        (les.map .loop)
  | startRefused : s.body = .startingAgain → s.threads.loop.bRunning = false →
      PerformCases s { s with body := .none } [.loop (.refused .stop)]
  | repeating : s.body = .timercb → s.mRepeat ≠ 0 →
      PerformCases s { s with body := .none } []
  | ending : s.body = .timercb → s.mRepeat = 0 →
      PerformCases s { s with body := .ending } []
  | ended : s.body = .ending →
      PerformCases s { s with bTimerStarted := false, body := .none } []

inductive StepCases (s : Uvtimer) : Act → Uvtimer → List Event → Prop
  | registerTimer : StepCases s .registerTimer { s with ploop := true } []
  | setTimer (ticb : Bool) (delay period : ℕ) : StepCases s (.setTimer ticb delay period)
      { s with timercb := ticb, mDelay := delay, mRepeat := period } []
  | loop (a : Act) (b : Uvloop.Act Req) (th : Uvloop.Threads Req)
      (les : List (Uvloop.Event Req)) : LoopAct s a b → s.threads.step b = some (th, les) →
      StepCases s a { s with threads := th } (les.map .loop)
  | request (t : ℕ) (f : Api) : s.Idle t →
      StepCases s (.request t f) { s with call := update s.call t (s.begin f) }
        (if s.begin f = .idle then [.returned t f true] else [])
  | force (t : ℕ) : s.call t = .forcing →
      StepCases s (.force t)
        { s with bRestartTimer := true, call := update s.call t .restarting } []
  | addReqFault (t : ℕ) : s.ploop = false →
      StepCases s (.addReq t) { s with crashed := true } [.fault]
  | addReq (t : ℕ) (f : Api) (req : Req) (th : Uvloop.Threads Req)
      (les : List (Uvloop.Event Req)) : (s.call t).serves = some (f, req) →
      s.threads.step (.call t (.addReq req.eType (some req))) = some (th, les) →
      s.threads.loop.bRunning = true →
      StepCases s (.addReq t) { s with threads := th } (les.map .loop)
  | refused (t : ℕ) (f : Api) (req : Req) (th : Uvloop.Threads Req)
      (les : List (Uvloop.Event Req)) : (s.call t).serves = some (f, req) →
      s.threads.step (.call t (.addReq req.eType (some req))) = some (th, les) →
      s.threads.loop.bRunning = false →
      StepCases s (.addReq t) { s with threads := th, call := update s.call t .idle }
        (les.map .loop ++ [.returned t f ((s.call t).result .stop)])
  | lock (t : ℕ) (f : Api) (req : Req) (th : Uvloop.Threads Req)
      (les : List (Uvloop.Event Req)) (err : LoopErr) : (s.call t).serves = some (f, req) →
      s.threads.step (.lock t) = some (th, les) →
      err = (if s.threads.loop.dAsync = [] then .busy else .noErr) →
      StepCases s (.lock t) { s with threads := th, call := update s.call t .idle }
        (les.map .loop ++ [.returned t f ((s.call t).result err)])
  | lockStop (t : ℕ) (th : Uvloop.Threads Req) (les : List (Uvloop.Event Req)) :
      (s.call t).serves = none → s.threads.step (.lock t) = some (th, les) →
      StepCases s (.lock t) { s with threads := th } (les.map .loop)
  | turn (a : Uvloop.Turn) (th : Uvloop.Threads Req) (les : List (Uvloop.Event Req)) :
      s.body = .none → s.threads.step (.turn a) = some (th, les) →
      StepCases s (.turn a) { s with threads := th, body := s.nextBody a th.loop.position }
        (les.map .loop)
  | perform (s' : Uvtimer) (es : List Event) : PerformCases s s' es →
      StepCases s .perform s' es
  | expire (period : ℕ) : s.timer = .inited true period → s.body = .none →
      StepCases s .expire
        { s with timer := .inited (decide (period ≠ 0)) period, body := .timercb } [.expired]
  | expireFault (period : ℕ) : s.timer = .inited true period → s.body = .none →
      StepCases s .expire
        { s with
          timer := .inited (decide (period ≠ 0)) period, body := .timercb, crashed := true }
        [.expired, .fault]

variable {s s' : Uvtimer} {a : Act} {es : List Event}

theorem loopStep_cases {b : Uvloop.Act Req} (hs : s.loopStep b = some (s', es)) :
    ∃ th les, s.threads.step b = some (th, les) ∧ s' = { s with threads := th } ∧
      es = les.map .loop :=
  Uvloop.Threads.map_step_cases hs

theorem startAgain_cases (hb : s.body = .startingAgain) :
    PerformCases s s.startAgain.1 s.startAgain.2 := by
  unfold startAgain
  dsimp only
  split
  · next hf => exact .startedAlready hb hf
  · split
    · next hp => exact .startFault hb hp
    · split
      · next hr => exact .startAgain _ _ hb hr rfl
      · next hr => exact .startRefused hb (by simpa using hr)

theorem timerStop_cases (hb : s.body = .timerStop) :
    PerformCases s s.timerStop.1 s.timerStop.2 := by
  unfold timerStop
  split
  · next ht => exact .timerStopFault hb ht
  · next ht => exact .timerStopRaw hb ht
  · next active period ht => exact .timerStop active period hb ht

theorem perform_cases (hs : s.perform = some (s', es)) : PerformCases s s' es := by
  unfold perform at hs
  split at hs <;> first | contradiction | obtain ⟨rfl, rfl⟩ := Prod.mk.inj (Option.some.inj hs)
  · next hb => exact .timerStart hb
  · next hb => exact .started hb
  · next hb => exact timerStop_cases hb
  · next hb => exact .stopped hb
  · next hb =>
    split
    · next hr => exact .restart hb hr
    · next hr => exact .done hb (by simpa using hr)
  · next hb => exact .restarting hb
  · next hb => exact startAgain_cases hb
  · next hb =>
    split
    · next hm => exact .ending hb hm
    · next hm => exact .repeating hb hm
  · next hb => exact .ended hb

theorem step_cases (hs : s.step a = some (s', es)) : StepCases s a s' es := by
  unfold step at hs
  split at hs
  · contradiction
  · cases a with
    | registerTimer | setTimer =>
      obtain ⟨rfl, rfl⟩ := Prod.mk.inj (Option.some.inj hs)
      constructor
    | run t =>
      obtain ⟨hi, hs⟩ := Option.ite_none_right_eq_some.mp hs
      obtain ⟨th, les, ht, rfl, rfl⟩ := loopStep_cases hs
      exact .loop _ _ th les (.run t hi) ht
    | setRunning t =>
      obtain ⟨th, les, ht, rfl, rfl⟩ := loopStep_cases hs
      exact .loop _ _ th les (.setRunning t) ht
    | stop t =>
      obtain ⟨hi, hs⟩ := Option.ite_none_right_eq_some.mp hs
      obtain ⟨th, les, ht, rfl, rfl⟩ := loopStep_cases hs
      exact .loop _ _ th les (.stop t hi) ht
    | request t f =>
      obtain ⟨hi, hs⟩ := Option.ite_none_right_eq_some.mp hs
      obtain ⟨rfl, rfl⟩ := Prod.mk.inj (Option.some.inj hs)
      exact .request t f hi
    | force t =>
      obtain ⟨hc, hs⟩ := Option.ite_none_right_eq_some.mp hs
      obtain ⟨rfl, rfl⟩ := Prod.mk.inj (Option.some.inj hs)
      exact .force t hc
    | addReq t =>
      dsimp only at hs
      split at hs
      · next f req hc =>
        split at hs
        · next hp =>
          obtain ⟨rfl, rfl⟩ := Prod.mk.inj (Option.some.inj hs)
          exact .addReqFault t (by simpa using (Bool.and_eq_true_iff.mp hp).2)
        · obtain ⟨⟨s₁, es₁⟩, hp, he⟩ := Option.map_eq_some_iff.mp hs
          obtain ⟨th, les, ht, rfl, rfl⟩ := loopStep_cases hp
          split at he
          · next hr =>
            obtain ⟨rfl, rfl⟩ := Prod.mk.inj he
            exact .addReq t f req th les hc ht hr
          · next hr =>
            simp only [finish, hc] at he
            obtain ⟨rfl, rfl⟩ := Prod.mk.inj he
            exact .refused t f req th les hc ht (by simpa using hr)
      · contradiction
    | lock t =>
      obtain ⟨⟨s₁, es₁⟩, hp, he⟩ := Option.map_eq_some_iff.mp hs
      obtain ⟨th, les, ht, rfl, rfl⟩ := loopStep_cases hp
      cases hc : (s.call t).serves with
      | none =>
        simp only [finish, hc] at he
        obtain ⟨rfl, rfl⟩ := Prod.mk.inj he
        exact .lockStop t th les hc ht
      | some p =>
        obtain ⟨f, req⟩ := p
        simp only [finish, hc] at he
        obtain ⟨rfl, rfl⟩ := Prod.mk.inj he
        exact .lock t f req th les _ hc ht rfl
    | turn b =>
      obtain ⟨hb, hs⟩ := Option.ite_none_right_eq_some.mp hs
      obtain ⟨⟨s₁, es₁⟩, hp, he⟩ := Option.map_eq_some_iff.mp hs
      obtain ⟨rfl, rfl⟩ := Prod.mk.inj he
      obtain ⟨th, les, ht, rfl, rfl⟩ := loopStep_cases hp
      exact .turn b th les hb ht
    | perform => exact .perform _ _ (perform_cases hs)
    | expire =>
      dsimp only at hs
      split at hs
      · next period ht =>
        obtain ⟨⟨-, hb⟩, hs⟩ := Option.ite_none_right_eq_some.mp hs
        have he := Option.some.inj hs
        unfold expire at he
        dsimp only at he
        split at he <;> obtain ⟨rfl, rfl⟩ := Prod.mk.inj he
        · exact .expire period ht hb
        · exact .expireFault period ht hb
      · contradiction

end UvWrapper.Uvtimer
