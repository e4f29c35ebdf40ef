import UvWrapper.Timer.Reinit
import UvWrapper.Loop.Passes
import UvWrapper.Lib.Arrivals

/-! # Requests of the timer on their way

Which handles carry requests of the timer, in the order in which the loop accepted them, as
long as it accepts every one and the loop thread executes them in that order.
-/

namespace UvWrapper.Uvtimer

open Function Transition

variable {s s' : Uvtimer} {a : Act} {es : List Event} {queue : List ℕ} {t : ℕ} {f : Api}
  {req : Req}

def othersBehave : Act → Prop
  | .request _ (.other eEventType _) => eEventType ≠ .loopStop
  | _ => True

instance : DecidablePred othersBehave := fun a =>
  match a with
  | .request _ (.other eEventType _) => inferInstanceAs (Decidable (eEventType ≠ .loopStop))
  | .request _ (.startTimer _) | .request _ .stopTimer | .registerTimer | .setTimer _ _ _
  | .run _ | .setRunning _ | .stop _ | .force _ | .addReq _ | .lock _ | .turn _ | .perform
  | .expire => .isTrue trivial

def Caller.own (c : Caller) : Option Req := c.serves.bind fun p => p.2.own

/-- The loop accepts the requests of the timer. -/
def accepts (s : Uvtimer) : Act → Prop
  | .addReq t => (s.call t).own.isSome → s.threads.loop.bRunning = true
  | .lock t => (s.call t).own.isSome → s.threads.loop.dAsync ≠ []
  | .perform => s.body = .startingAgain →
      s.threads.loop.bRunning = true ∧ s.threads.loop.dAsync ≠ []
  | _ => True

instance (s : Uvtimer) : DecidablePred s.accepts := fun a =>
  match a with
  | .addReq _ | .lock _ | .perform => inferInstanceAs (Decidable (_ → _))
  | .registerTimer | .setTimer _ _ _ | .run _ | .setRunning _ | .stop _ | .request _ _ | .force _
  | .turn _ | .expire => .isTrue trivial

def waiting (s : Uvtimer) : ℕ → Option Req := s.threads.loop.carried Req.own

/-- The loop thread executes the requests of the timer in the order of their acceptance. -/
def inOrder (s : Uvtimer) (queue : List ℕ) : Act → Prop
  | .turn (.fire h) => (s.waiting h).isSome → queue.head? = some h
  | _ => True

instance (s : Uvtimer) (queue : List ℕ) : DecidablePred (s.inOrder queue) := fun a =>
  match a with
  | .turn (.fire _) => inferInstanceAs (Decidable (_ → _))
  | .turn .tcbReturn | .turn .recycle | .turn .skip | .turn .newPass | .turn .leave
  | .turn .clearRunning | .registerTimer | .setTimer _ _ _ | .run _ | .setRunning _ | .stop _
  | .request _ _ | .force _ | .addReq _ | .lock _ | .perform | .expire => .isTrue trivial

def Event.handle : Event → Option ℕ
  | .loop (.accepted h _) => some h
  | _ => none

/-- The handles that carry requests of this timer, in the order of acceptance, after a
step. -/
def enqueue (s : Uvtimer) (a : Act) (es : List Event) (queue : List ℕ) : List ℕ :=
  match a with
  | .turn (.fire h) => queue.erase h
  | .lock t => if (s.call t).own.isSome then queue ++ es.filterMap Event.handle else queue
  | .perform => queue ++ es.filterMap Event.handle
  | _ => queue

/-- The request being executed and those that wait, the oldest first. -/
def pending (s : Uvtimer) (queue : List ℕ) : List Req :=
  s.body.request.toList ++ queue.filterMap s.waiting

/-! ## Calls and their requests -/

theorem begin_startTimer (s : Uvtimer) (b : Bool) :
    (s.bTimerStarted = false ∧ s.begin (.startTimer b) = .starting b) ∨
      (s.bTimerStarted = true ∧ s.begin (.startTimer b) = if b then .forcing else .idle) := by
  cases hf : s.bTimerStarted with
  | false => exact .inl ⟨rfl, by simp [begin, hf]⟩
  | true => exact .inr ⟨rfl, by simp [begin, hf]⟩

/-- The threads inside the loop are there for the calls they are in. -/
structure Wired (s : Uvtimer) : Prop where
  loop : s.threads.Inv
  other : ∀ t e id, s.call t = .adding e id → e ≠ .loopStop
  calls : ∀ t fill, s.threads.call t = .locking fill →
    (fill = .stop ∧ s.call t = .idle) ∨
      ∃ f req, (s.call t).serves = some (f, req) ∧ fill = .addReq req.eType (some req)

theorem wired_create (garbage : ℕ → EType) (bit : Bool) : (create garbage bit).Wired where
  loop := ⟨Uvloop.create_inv garbage, by simp [create]⟩
  other := by simp [create]
  calls := by simp [create]

theorem Wired.callable (h : s.Wired) (hc : (s.call t).serves = some (f, req)) :
    (Uvloop.Fill.addReq req.eType (some req)).Callable := by
  refine ⟨?_, rfl⟩
  cases he : s.call t with
  | idle | forcing => simp [he, Caller.serves] at hc
  | starting | restarting | stopping =>
    rw [he] at hc
    obtain ⟨-, rfl⟩ := Prod.mk.inj (Option.some.inj hc)
    simp [Req.eType]
  | adding e id =>
    rw [he] at hc
    obtain ⟨-, rfl⟩ := Prod.mk.inj (Option.some.inj hc)
    exact h.other t e id he

theorem Wired.locking (h : s.Wired) {c : Uvloop.Threads Req} {les : List (Uvloop.Event Req)}
    (hc : (s.call t).serves = some (f, req)) (ht : s.threads.step (.lock t) = some (c, les)) :
    c.call = update s.threads.call t .idle ∧
      s.threads.loop.submit (.addReq req.eType (some req)) = (c.loop, les) := by
  obtain ⟨fill, hfill, hcall, hsub⟩ := Uvloop.Threads.lock_cases ht
  rcases h.calls t fill hfill with ⟨-, he⟩ | ⟨f', req', he, rfl⟩
  · rw [he] at hc
    cases hc
  · obtain ⟨rfl, rfl⟩ := Prod.mk.inj (Option.some.inj (he.symm.trans hc))
    exact ⟨hcall, hsub⟩

theorem Wired.of_threads (h : s.Wired) {c : Uvloop.Act Req} {th : Uvloop.Threads Req}
    {les : List (Uvloop.Event Req)} (ht : s.threads.step c = some (th, les))
    (hg : Uvloop.callersBehave s.threads c)
    (hc : ∀ t fill, c = .call t fill → (fill = .stop ∧ s.call t = .idle) ∨
      ∃ f req, (s.call t).serves = some (f, req) ∧ fill = .addReq req.eType (some req)) :
    Wired { s with threads := th } where
  loop := h.loop.step hg ht
  other := h.other
  calls := by
    intro t fill hfill
    rcases Uvloop.Threads.step_call ht hfill with hfill | hc'
    · exact h.calls t fill hfill
    · exact hc t fill hc'

theorem Wired.of_call (h : s.Wired) {c : Caller} (hother : ∀ e id, c = .adding e id → e ≠ .loopStop)
    (hidle : ∀ fill, s.threads.call t ≠ .locking fill) :
    Wired { s with call := update s.call t c } where
  loop := h.loop
  other := by
    intro u e id he
    rcases eq_or_ne u t with rfl | hu
    · exact hother e id (by simpa using he)
    · exact h.other u e id (by simpa [hu] using he)
  calls := by
    intro u fill hfill
    rcases eq_or_ne u t with rfl | hu
    · exact (hidle fill hfill).elim
    · simpa [hu] using h.calls u fill hfill

theorem PerformCases.wired (hp : PerformCases s s' es) (h : s.Wired) : s'.Wired := by
  cases hp with
  | startAgain loop les _ _ hsub =>
    obtain rfl : (s.threads.loop.submit (.addReq .timerStart (some .timerStart))).1 = loop := by
      rw [hsub]
    exact ⟨⟨h.loop.loop.submit ⟨by simp, rfl⟩, h.loop.callable⟩, h.other, h.calls⟩
  | _ => exact ⟨h.loop, h.other, h.calls⟩

theorem Wired.step (h : s.Wired) (hg : othersBehave a) (hs : s.step a = some (s', es)) :
    s'.Wired := by
  cases step_cases hs with
  | registerTimer | setTimer | addReqFault | expire | expireFault =>
    exact ⟨h.loop, h.other, h.calls⟩
  | loop a c th les hl ht =>
    cases hl with
    | run | setRunning => exact h.of_threads ht trivial (by simp)
    | stop t hi =>
      apply h.of_threads ht trivial
      intro u fill he
      obtain ⟨rfl, rfl⟩ := Uvloop.Act.call.inj he
      exact .inl ⟨rfl, hi.1⟩
  | request t f hi =>
    refine h.of_call (fun e id he => ?_) (by simp [hi.2])
    cases f with
    | startTimer b =>
      rcases s.begin_startTimer b with ⟨-, hb⟩ | ⟨-, hb⟩
      · cases hb.symm.trans he
      · rw [hb] at he
        split at he <;> cases he
    | stopTimer => cases he
    | other e' id' =>
      obtain ⟨rfl, -⟩ := Caller.adding.inj he
      exact hg
  | force t hc =>
    have hw := h.of_call (t := t) (c := .restarting) (by simp) fun fill hfill => by
      rcases h.calls t fill hfill with ⟨-, he⟩ | ⟨f, req, he, -⟩
      · cases hc.symm.trans he
      · simp [hc, Caller.serves] at he
    exact ⟨hw.loop, hw.other, hw.calls⟩
  | addReq t f req th les hc ht =>
    apply h.of_threads ht (h.callable hc)
    intro u fill he
    obtain ⟨rfl, rfl⟩ := Uvloop.Act.call.inj he
    exact .inr ⟨f, req, hc, rfl⟩
  | refused t f req th les hc ht hr =>
    have hth : th = s.threads ∧ ∀ fill, s.threads.call t ≠ .locking fill := by
      cases Uvloop.Threads.step_cases ht with
      | called _ _ _ hr' => cases hr.symm.trans hr'
      | refused _ _ hi => exact ⟨rfl, by simp [hi]⟩
    rw [hth.1]
    exact h.of_call (by simp) hth.2
  | lock t f req th les err hc ht =>
    have hw : Wired { s with threads := th } := h.of_threads ht trivial (by simp)
    apply hw.of_call (by simp)
    intro fill hfill
    rw [(h.locking hc ht).1] at hfill
    simp at hfill
  | lockStop t th les hc ht => exact h.of_threads ht trivial (by simp)
  | turn c th les hb ht =>
    have hw : Wired { s with threads := th } := h.of_threads ht trivial (by simp)
    exact ⟨hw.loop, hw.other, hw.calls⟩
  | perform _ _ hp => exact hp.wired h

end UvWrapper.Uvtimer
