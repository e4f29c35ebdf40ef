import UvWrapper.Timer.Requests

/-! # What the timer will come to

When everything pending has been executed the timer is in the state in which the last request
leaves it, or a restart has brought it back. The loop thread does not change this by going on.
-/

namespace UvWrapper.Uvtimer

open Function

variable {s s' : Uvtimer} {es : List Event} {queue : List ℕ} {req : Req}

/-- `m_bRestartTimer` is set, or the loop thread is about to call `startTimer` for it. -/
def Restarting (s : Uvtimer) : Prop :=
  s.bRestartTimer = true ∨ s.body = .restarting ∨ s.body = .startingAgain

instance (s : Uvtimer) : Decidable s.Restarting := inferInstanceAs (Decidable (_ ∨ _))

/-- The state in which the last of the requests leaves the timer. -/
def Ends (reqs : List Req) (active : Bool) : Prop :=
  match reqs.getLast? with
  | some req => req = .timerStart
  | none => active = true

/-- When all that is pending has been executed the timer will be active. -/
def WillRun (s : Uvtimer) (queue : List ℕ) : Prop :=
  (s.Restarting ∧ .timerStop ∈ s.pending queue) ∨ Ends (s.pending queue) s.timer.active

theorem ends_nil {active : Bool} : Ends [] active ↔ active = true := Iff.rfl

theorem ends_append {reqs : List Req} {active : Bool} :
    Ends (reqs ++ [req]) active ↔ req = .timerStart := by
  rw [Ends, List.getLast?_concat]

theorem ends_cons {reqs : List Req} {active : Bool} :
    Ends (req :: reqs) active ↔ Ends reqs (decide (req = .timerStart)) := by
  unfold Ends
  rw [List.getLast?_cons]
  cases reqs.getLast? <;> simp

theorem willRun_congr {queue' : List ℕ} (hp : s'.pending queue' = s.pending queue)
    (hr : s'.Restarting ↔ s.Restarting) (ha : s'.timer.active = s.timer.active) :
    s'.WillRun queue' ↔ s.WillRun queue := by
  rw [WillRun, WillRun, hp, hr, ha]

/-! ## The loop -/

theorem waiting_congr (h : s'.threads.loop.carries = s.threads.loop.carries) :
    s'.waiting = s.waiting := by
  ext x : 1
  rw [waiting, waiting, Uvloop.carried, Uvloop.carried, h]

theorem waiting_of_submit (s' : Uvtimer) (hw : s.Wired) (hq : Arrivals.Lists s.waiting queue)
    (hd : s.threads.loop.dAsync ≠ []) {e : EType} {loop : Uvloop Req}
    {les : List (Uvloop.Event Req)} {cb : Req}
    (hsub : s.threads.loop.submit (.addReq e (some cb)) = (loop, les)) (he : e ≠ .loopStop)
    (ho : cb.own = some req) (hs : s'.threads.loop = loop) :
    Arrivals.Lists s'.waiting (queue ++ (les.map Event.loop).filterMap Event.handle) ∧
      (queue ++ (les.map Event.loop).filterMap Event.handle).filterMap s'.waiting =
        queue.filterMap s.waiting ++ [req] := by
  rcases Uvloop.submit_cases s.threads.loop (.addReq e (some cb)) with ⟨hn, -⟩ | ⟨h, l, ht, hl⟩
  · exact (hd hn).elim
  · obtain ⟨rfl, rfl⟩ := Prod.mk.inj (hsub.symm.trans hl)
    obtain ⟨hnone, hcarried, -⟩ := hw.loop.loop.carried_of_take (k := Req.own) ht
    have hwait : s'.waiting = update s.waiting h (some req) := by
      rw [waiting, hs, hcarried]
      simp [Uvloop.Fill.callback, he, ho, waiting]
    have hhandles : (List.map Event.loop [.accepted h (Uvloop.Fill.apply
        (.addReq e (some cb)) (s.threads.loop.async h)), .asyncSend h]).filterMap Event.handle =
        [h] := rfl
    rw [hhandles, hwait]
    exact hq.arrive hnone req

theorem waiting_of_other (hw : s.Wired) {fill : Uvloop.Fill Req} {loop : Uvloop Req}
    {les : List (Uvloop.Event Req)} (hsub : s.threads.loop.submit fill = (loop, les))
    (hk : fill.callback.bind Req.own = none) (hs : s'.threads.loop = loop) :
    s'.waiting = s.waiting := by
  rcases Uvloop.submit_cases s.threads.loop fill with ⟨-, hl⟩ | ⟨h, l, ht, hl⟩
  · obtain ⟨rfl, rfl⟩ := Prod.mk.inj (hsub.symm.trans hl)
    rw [waiting, hs, waiting]
  · obtain ⟨rfl, rfl⟩ := Prod.mk.inj (hsub.symm.trans hl)
    obtain ⟨hnone, hcarried, -⟩ := hw.loop.loop.carried_of_take (k := Req.own) ht
    rw [waiting, hs, hcarried, hk, ← hnone, update_eq_self, waiting]

theorem enter_request (o : Option Req) : (Body.enter o).request = o.bind Req.own := by
  rcases o with _ | _ | _ | _ <;> rfl

theorem request_of_fire (hw : s.Wired) {h : ℕ} {l : Uvloop Req} {les : List (Uvloop.Event Req)}
    (ht : s.threads.loop.turn (.fire h) = some (l, les)) :
    (s.nextBody (.fire h) l.position).request = s.waiting h := by
  cases hw.loop.loop.turn_cases ht with
  | fireStop _ _ _ he => simp [nextBody, Body.request, waiting, Uvloop.carried, Uvloop.carries, he]
  | fire _ cb _ hs he hcb =>
    simp [nextBody, enter_request, waiting, Uvloop.carried, Uvloop.carries, hs, he, hcb]

theorem pending_of_fire (hw : s.Wired) (hq : Arrivals.Lists s.waiting queue) {h : ℕ}
    {th : Uvloop.Threads Req} {les : List (Uvloop.Event Req)} (hb : s.body = .none)
    (ht : s.threads.step (.turn (.fire h)) = some (th, les))
    (ho : s.inOrder queue (.turn (.fire h)))
    (hs : s' = { s with threads := th, body := s.nextBody (.fire h) th.loop.position }) :
    Arrivals.Lists s'.waiting (queue.erase h) ∧ s'.pending (queue.erase h) = s.pending queue := by
  obtain ⟨-, hturn⟩ := Uvloop.Threads.turn_cases ht
  have hwait : s'.waiting = update s.waiting h none := by
    rw [waiting, hs]
    exact hw.loop.loop.carried_of_fire hturn
  have hbody : s'.body.request = s.waiting h := by
    rw [hs]
    exact request_of_fire hw hturn
  obtain ⟨hl, hf⟩ := hq.leave ho
  rw [hwait, pending, hbody, hwait, pending, hb, hf]
  exact ⟨hl, rfl⟩

theorem willRun_of_turn (hw : s.Wired) (hq : Arrivals.Lists s.waiting queue) {c : Uvloop.Turn}
    {th : Uvloop.Threads Req} {les : List (Uvloop.Event Req)} (hb : s.body = .none)
    (ht : s.threads.step (.turn c) = some (th, les)) (ho : s.inOrder queue (.turn c)) :
    let s' := { s with threads := th, body := s.nextBody c th.loop.position }
    Arrivals.Lists s'.waiting (s.enqueue (.turn c) es queue) ∧
      (s'.WillRun (s.enqueue (.turn c) es queue) ↔ s.WillRun queue) := by
  have hrest : Restarting { s with threads := th, body := s.nextBody c th.loop.position } ↔
      s.Restarting := by
    rcases s.nextBody_cases c th.loop.position with he | he | he <;> simp [Restarting, he, hb]
  cases c with
  | fire h =>
    obtain ⟨hl, hp⟩ := pending_of_fire hw hq hb ht ho rfl
    exact ⟨hl, willRun_congr hp hrest rfl⟩
  | _ =>
    obtain ⟨-, hturn⟩ := Uvloop.Threads.turn_cases ht
    have hwait : waiting { s with threads := th, body := .none } = s.waiting :=
      waiting_congr (hw.loop.loop.carries_of_turn hturn (by simp))
    refine ⟨hwait ▸ hq, willRun_congr ?_ hrest rfl⟩
    simp [pending, hb, nextBody, hwait, enqueue]

theorem willRun_of_quiet (hq : Arrivals.Lists s.waiting queue) (hth : s'.threads = s.threads)
    (he : es.filterMap Event.handle = []) (hw : s'.WillRun queue ↔ s.WillRun queue) :
    Arrivals.Lists s'.waiting (queue ++ es.filterMap Event.handle) ∧
      (s'.WillRun (queue ++ es.filterMap Event.handle) ↔ s.WillRun queue) := by
  rw [he, List.append_nil, waiting_congr (congrArg (fun th => th.loop.carries) hth)]
  exact ⟨hq, hw⟩

theorem PerformCases.willRun (hp : PerformCases s s' es) (hw : s.Wired) (ht : s.Tracks)
    (hq : Arrivals.Lists s.waiting queue) (hr : s.body = .timercb → s.mRepeat ≠ 0)
    (he : s.body ≠ .ending) (ha : s.accepts .perform) :
    Arrivals.Lists s'.waiting (queue ++ es.filterMap Event.handle) ∧
      (s'.WillRun (queue ++ es.filterMap Event.handle) ↔ s.WillRun queue) := by
  cases hp with
  | startAgain loop les hb hrun hsub =>
    obtain ⟨hl, hf⟩ := waiting_of_submit
      { s with threads := { s.threads with loop }, body := .none } hw hq (ha hb).2 hsub
      (by simp) rfl rfl
    refine ⟨hl, iff_of_true (.inr ?_) (.inl ⟨.inr (.inr hb), ?_⟩)⟩
    · rw [pending, hf]
      exact ends_append.mpr rfl
    · simp [pending, hb, Body.request]
  | startRefused hb hrun => cases hrun.symm.trans (ha hb).1
  | startedAlready hb hf =>
    rw [Tracks, hb] at ht
    cases hf.symm.trans ht.1
  | ending hb hm => exact (hr hb hm).elim
  | ended hb => exact (he hb).elim
  | timerStart hb | timerStop _ _ hb hi | timerStopRaw hb hi | stopped hb =>
    refine willRun_of_quiet hq rfl rfl ?_
    simp [WillRun, pending, Restarting, hb, Body.request, ends_cons, waiting]
  | timerStopFault | startFault =>
    exact willRun_of_quiet hq rfl rfl Iff.rfl
  | started hb =>
    refine willRun_of_quiet hq rfl rfl ?_
    have hactive : s.timer.active = true := by simpa [Tracks, hb] using ht
    simp [WillRun, pending, Restarting, hb, Body.request, ends_cons, waiting, hactive]
  | done hb hf =>
    refine willRun_of_quiet hq rfl rfl ?_
    rw [Tracks, hb] at ht
    have hactive : s.timer.active = false := ht.2
    simp [WillRun, pending, Restarting, hb, Body.request, ends_cons, waiting, hactive, hf]
  | restart hb hf =>
    refine willRun_of_quiet hq rfl rfl ?_
    simp [WillRun, pending, Restarting, hb, Body.request, hf]
  | restarting hb =>
    refine willRun_of_quiet hq rfl rfl ?_
    simp [WillRun, pending, Restarting, hb, Body.request]
  | repeating hb =>
    refine willRun_of_quiet hq rfl rfl ?_
    simp [WillRun, pending, Restarting, hb, Body.request, waiting]

end UvWrapper.Uvtimer
