import UvWrapper.Timer.Commands
import UvWrapper.Lib.Tally

/-! # What the calls of the timer come to

Requests wait on their handles, and a restart is a flag that whichever stop is executed first
turns into one more request. Nothing of this multiplies them: each call of libuv is due to a
call of `startTimer` or `StopTimer` of its own. As long as no active timer is initialised
again, the timer runs out only where it has been started.
-/

namespace UvWrapper.Uvtimer

open Counting Function Transition

variable {s s' : Uvtimer} {a : Act} {es tr : List Event} {t : ℕ} {req : Req}

/-! ## What is read off a history -/

def Event.entered : Event → Option Req
  | .loop (.ran _ ⟨e, some req⟩) => if e = .loopStop then none else req.own
  | _ => none

def Event.made : Event → Option Req
  | .timerStart _ _ => some .timerStart
  | .timerStop => some .timerStop
  | _ => none

def Body.before : Body → Option Req
  | .timerStart => some .timerStart
  | .timerStop => some .timerStop
  | _ => Option.none

/-- What libuv keeps of the timer: the repeat with which it was started, until it is stopped or
runs out without repeat. -/
def Event.arm : Option ℕ → Event → Option ℕ
  | _, .timerStart _ period => some period
  | _, .timerStop => none
  | some 0, .expired => none
  | c, _ => c

def armed (tr : List Event) : Option ℕ := tr.foldl Event.arm none

def Event.expires : Option ℕ → Event → Option (Option ℕ)
  | c, .expired => some c
  | _, _ => none

/-- For each time the timer runs out, what libuv kept of it then. -/
def expirations (tr : List Event) : List (Option ℕ) := gathered Event.arm Event.expires none tr

theorem armed_append : armed (tr ++ es) = es.foldl Event.arm (armed tr) := List.foldl_append ..

theorem expirations_append :
    expirations (tr ++ es) = expirations tr ++ gathered Event.arm Event.expires (armed tr) es :=
  gathered_append

/-- Each start lets the timer run out once without repeat at most. -/
theorem count_expirations_add_le (c : Option ℕ) (tr : List Event) :
    (gathered Event.arm Event.expires c tr).count (some 0) +
        (if tr.foldl Event.arm c = some 0 then 1 else 0) ≤
      (if c = some 0 then 1 else 0) + (tr.filterMap Event.made).count .timerStart := by
  induction tr generalizing c with
  | nil => exact (Nat.zero_add _).le
  | cons e tr ih =>
    have hrest := ih (Event.arm c e)
    have hone : (Event.expires c e).toList.count (some 0) +
          (if Event.arm c e = some 0 then 1 else 0) ≤
        (if c = some 0 then 1 else 0) + ([e].filterMap Event.made).count .timerStart := by
      cases e with
      | expired => rcases c with _ | _ | period <;> simp [Event.expires, Event.arm, Event.made]
      | timerStart delay period =>
        by_cases hp : period = 0 <;> simp [Event.expires, Event.arm, Event.made, hp]
      | timerStop | loop | returned | timerInit | fault =>
        rcases c with _ | _ | period <;> simp [Event.expires, Event.arm, Event.made]
    rw [gathered, List.count_append, List.foldl_cons, ← List.singleton_append,
      List.filterMap_append, List.count_append]
    omega

/-! ## What the calls have to cover -/

/-- Whether a function may add a request, itself or through a restart. -/
def Api.leadsTo (req : Req) : Api → Bool
  | .startTimer bForceRestart => req == .timerStart || (bForceRestart && req == .timerStop)
  | .stopTimer => req == .timerStop
  | .other _ _ => false

def Caller.owes (req : Req) : Caller → Bool
  | .starting _ => req == .timerStart
  | .forcing => req == .timerStart || req == .timerStop
  | .restarting | .stopping => req == .timerStop
  | .idle | .adding _ _ => false

/-- The loop thread is about to reset `m_bRestartTimer`; it is about to start the timer again. -/
def Body.resets : Body → Bool
  | .restarting => true
  | _ => false

def Body.again : Body → Bool
  | .startingAgain => true
  | _ => false

def restarts (s : Uvtimer) (req : Req) : ℕ :=
  if req = .timerStart then (s.bRestartTimer || s.body.resets).toNat + s.body.again.toNat else 0

/-- A call that may add the request begins. -/
def Act.asks (a : Act) (req : Req) : ℕ :=
  match a with
  | .request _ f => (f.leadsTo req).toNat
  | _ => 0

def counted : System (Uvtimer × (Req → ℕ)) Act Event :=
  timed.observed (fun _ => 0) fun _ a _ n req => n req + a.asks req

/-- The requests that have been run, those that wait and those that may still be added are no
more than the calls that have begun. -/
def Covered (s : Uvtimer) (req : Req) (ran begun : ℕ) : Prop :=
  ∃ calls waits, Tally (Caller.owes req) s.call calls ∧
    Tally (fun o => o == some req) s.waiting waits ∧
    ran + waits + s.restarts req + calls ≤ begun

/-! ## The loop -/

theorem entered_of_call {b : Uvloop.Act Req} {th : Uvloop.Threads Req}
    {les : List (Uvloop.Event Req)} (ht : s.threads.step b = some (th, les))
    (hb : ∀ β, b ≠ .turn β) : (les.map Event.loop).filterMap Event.entered = [] := by
  cases Uvloop.Threads.step_cases ht with
  | called | run | setRunning | refused => rfl
  | lock t fill =>
    rcases Uvloop.submit_cases s.threads.loop fill with ⟨-, he⟩ | ⟨h, l', -, he⟩ <;> rw [he] <;> rfl
  | turn β => exact (hb β rfl).elim

theorem entered_ran (h : ℕ) (st : StAsync Req) :
    Event.entered (.loop (.ran h st)) =
      if st.eEvent = .loopStop then none else st.tcb.bind Req.own := by
  rcases st with ⟨e, _ | req⟩
  · simp [Event.entered]
  · rfl

/-- A request that is run has waited on its handle, and becomes the body of the callback. -/
theorem entered_of_turn (hw : s.Wired) {b : Uvloop.Turn} {l : Uvloop Req}
    {les : List (Uvloop.Event Req)} (ht : s.threads.loop.turn b = some (l, les)) :
    (les.map Event.loop).filterMap Event.entered = (s.nextBody b l.position).request.toList := by
  cases b with
  | fire h =>
    have hran : les = [.ran h (s.threads.loop.async h)] ∧ s.threads.loop.signalled h = true := by
      cases hw.loop.loop.turn_cases ht with
      | fireStop _ _ hs | fire _ _ _ hs => exact ⟨rfl, hs⟩
    rw [hran.1, request_of_fire hw ht, List.map_singleton, List.filterMap_cons, entered_ran,
      List.filterMap_nil, waiting, Uvloop.carried, Uvloop.carries]
    by_cases he : (s.threads.loop.async h).eEvent = .loopStop
    · simp [he]
    · cases hreq : (s.threads.loop.async h).tcb.bind Req.own <;> simp [he, hran.2, hreq]
  | recycle =>
    cases hw.loop.loop.turn_cases ht with
    | recycle => rfl
  | tcbReturn =>
    cases hw.loop.loop.turn_cases ht with
    | tcbReturn => rfl
  | skip | newPass | leave | clearRunning =>
    obtain ⟨rfl, rfl⟩ := Prod.mk.inj (Option.some.inj (Option.ite_none_right_eq_some.mp ht).2)
    rfl

theorem next_cases (s : Uvtimer) (b : Uvloop.Turn) (position : Position) :
    s.nextBody b position = .none ∨ s.nextBody b position = .timerStart ∨
      s.nextBody b position = .timerStop := by
  unfold nextBody
  split
  · generalize (s.threads.loop.async _).tcb = o
    rcases o with _ | _ | _ | _ <;> simp [Body.enter]
  · exact .inl rfl

theorem before_of_next (s : Uvtimer) (b : Uvloop.Turn) (position : Position) :
    (s.nextBody b position).before = (s.nextBody b position).request := by
  rcases s.next_cases b position with hb | hb | hb <;> rw [hb] <;> rfl

theorem waiting_of_fill (hw : s.Wired) {fill : Uvloop.Fill Req} {loop : Uvloop Req}
    {les : List (Uvloop.Event Req)} (hsub : s.threads.loop.submit fill = (loop, les))
    (hs : s'.threads.loop = loop) :
    s'.waiting = s.waiting ∨ ∃ h, s.waiting h = none ∧
      s'.waiting = update s.waiting h (fill.callback.bind Req.own) := by
  rcases Uvloop.submit_cases s.threads.loop fill with ⟨-, hl⟩ | ⟨h, l, ht, hl⟩
  · obtain ⟨rfl, rfl⟩ := Prod.mk.inj (hsub.symm.trans hl)
    exact .inl (by rw [waiting, hs, waiting])
  · obtain ⟨rfl, rfl⟩ := Prod.mk.inj (hsub.symm.trans hl)
    obtain ⟨hnone, hcarried, -⟩ := hw.loop.loop.carried_of_take (k := Req.own) ht
    exact .inr ⟨h, hnone, by rw [waiting, hs, hcarried, waiting]⟩

/-! ## Calls cover requests -/

variable {ran begun begun' : ℕ}

theorem Covered.move (h : Covered s req ran begun) {c : Caller} {o : Option Req}
    (hc : s'.call = update s.call t c)
    (hw : s'.waiting = s.waiting ∨ ∃ i, s.waiting i = none ∧ s'.waiting = update s.waiting i o)
    (hle : s'.restarts req + (c.owes req).toNat + (o == some req).toNat + begun ≤
      s.restarts req + ((s.call t).owes req).toNat + begun') : Covered s' req ran begun' := by
  obtain ⟨calls, waits, hcalls, hwaits, hsum⟩ := h
  obtain ⟨calls', hcalls', hchange⟩ := hcalls.replace t c
  have hput : s'.waiting = s.waiting ∨
      ∃ i, (s.waiting i == some req) = false ∧ s'.waiting = update s.waiting i o := by
    rcases hw with hw | ⟨i, hi, hw⟩
    · exact .inl hw
    · exact .inr ⟨i, by rw [hi]; rfl, hw⟩
  obtain ⟨waits', hadd, hwaits'⟩ := hwaits.put hput
  refine ⟨calls', waits', hc ▸ hcalls', hwaits', ?_⟩
  omega

theorem Covered.put (h : Covered s req ran begun) {o : Option Req} (hc : s'.call = s.call)
    (hw : s'.waiting = s.waiting ∨ ∃ i, s.waiting i = none ∧ s'.waiting = update s.waiting i o)
    (hle : s'.restarts req + (o == some req).toNat ≤ s.restarts req) :
    Covered s' req ran begun := by
  have hsame : s'.call = update s.call 0 (s.call 0) := by rw [update_eq_self, hc]
  refine h.move hsame hw ?_
  omega

theorem Covered.quiet (h : Covered s req ran begun) (hc : s'.call = s.call)
    (hw : s'.waiting = s.waiting) (hle : s'.restarts req ≤ s.restarts req) :
    Covered s' req ran begun :=
  h.put (o := none) hc (.inl hw) hle

theorem Covered.fire (h : Covered s req ran begun) (hc : s'.call = s.call) {i : ℕ}
    (hw : s'.waiting = update s.waiting i none) (hle : s'.restarts req ≤ s.restarts req) :
    Covered s' req (ran + (s.waiting i).toList.count req) begun := by
  obtain ⟨calls, waits, hcalls, hwaits, hsum⟩ := h
  obtain ⟨waits', hwaits', hchange⟩ := hwaits.replace i none
  have hran : (s.waiting i).toList.count req = (s.waiting i == some req).toNat := by
    cases s.waiting i with
    | none => rfl
    | some r =>
      rw [Option.toList_some, List.count_singleton, Option.some_beq_some]
      cases r == req <;> rfl
  have hnone : ((none : Option Req) == some req).toNat = 0 := rfl
  refine ⟨calls, waits', hc ▸ hcalls, hw ▸ hwaits', ?_⟩
  omega

theorem restarts_of_next (s : Uvtimer) (b : Uvloop.Turn) (position : Position)
    (th : Uvloop.Threads Req) (req : Req) :
    restarts { s with threads := th, body := s.nextBody b position } req ≤ s.restarts req := by
  have hbody : (s.nextBody b position).resets = false ∧ (s.nextBody b position).again = false := by
    rcases s.next_cases b position with hb | hb | hb <;> rw [hb] <;> exact ⟨rfl, rfl⟩
  simp only [restarts, hbody.1, hbody.2, Bool.or_false, Bool.toNat_false]
  split
  · have hle := Bool.toNat_le_toNat (Bool.left_le_or s.bRestartTimer s.body.resets)
    omega
  · exact le_rfl

theorem owes_begin (s : Uvtimer) (f : Api) (req : Req) : (s.begin f).owes req ≤ f.leadsTo req := by
  cases f with
  | startTimer b =>
    rcases s.begin_startTimer b with ⟨-, hb⟩ | ⟨-, hb⟩ <;> rw [hb]
    · exact Bool.left_le_or _ _
    · cases b with
      | false => exact Bool.false_le _
      | true => exact le_rfl
  | stopTimer => exact le_rfl
  | other => exact le_rfl

theorem own_le_owes {c : Caller} {f : Api} {r : Req} (hc : c.serves = some (f, r)) :
    (r.own == some req) ≤ c.owes req := by
  cases c with
  | idle | forcing => cases hc
  | starting | restarting | stopping =>
    obtain ⟨-, rfl⟩ := Prod.mk.inj (Option.some.inj hc)
    cases req <;> exact le_rfl
  | adding =>
    obtain ⟨-, rfl⟩ := Prod.mk.inj (Option.some.inj hc)
    exact le_rfl

theorem callback_le_own (e : EType) (r req : Req) :
    (((Uvloop.Fill.addReq e (some r)).callback.bind Req.own) == some req) ≤
      (r.own == some req) := by
  unfold Uvloop.Fill.callback
  dsimp only
  split
  · exact le_rfl
  · exact Bool.false_le _

theorem toNat_own_le {c : Caller} {f : Api} {r : Req} (hc : c.serves = some (f, r)) :
    (r.own == some req).toNat ≤ (c.owes req).toNat :=
  Bool.toNat_le_toNat (own_le_owes hc)

theorem Covered.perform (hw : s.Wired) (hp : PerformCases s s' es)
    (h : Covered s req ran begun) : Covered s' req ran begun := by
  cases hp with
  | timerStart hb | started hb | timerStop _ _ hb | timerStopRaw hb | stopped hb | done hb
  | repeating hb | ending hb | ended hb =>
    refine h.quiet rfl rfl ?_
    simp [restarts, hb, Body.resets, Body.again]
  | startedAlready hb | startRefused hb =>
    refine h.quiet rfl rfl ?_
    simp only [restarts, hb, Body.resets, Body.again, Bool.toNat_false, Bool.toNat_true]
    split <;> omega
  | timerStopFault | startFault => exact h.quiet rfl rfl le_rfl
  | restart hb hr =>
    refine h.quiet rfl rfl ?_
    simp [restarts, hb, hr, Body.resets, Body.again]
  | restarting hb =>
    refine h.quiet rfl rfl ?_
    simp [restarts, hb, Body.resets, Body.again]
  | startAgain loop les hb _ hsub =>
    refine h.put rfl (waiting_of_fill hw hsub rfl) ?_
    by_cases hr : req = .timerStart
    · subst hr
      have hbefore : s.restarts .timerStart = s.bRestartTimer.toNat + 1 := by
        simp [restarts, hb, Body.resets, Body.again]
      have hafter : restarts { s with threads := { s.threads with loop }, body := .none }
          .timerStart = s.bRestartTimer.toNat := by
        simp [restarts, Body.resets, Body.again]
      rw [hbefore, hafter]
      exact le_rfl
    · have hne : (some Req.timerStart == some req) = false := by simpa using Ne.symm hr
      simp [restarts, hr, Uvloop.Fill.callback, Req.own, hne]

theorem entered_of_perform (hp : PerformCases s s' es) : es.filterMap Event.entered = [] := by
  cases hp with
  | startAgain loop les _ _ hsub =>
    rcases Uvloop.submit_cases s.threads.loop (.addReq .timerStart (some .timerStart)) with
      ⟨-, he⟩ | ⟨h, l', -, he⟩
    · obtain ⟨-, rfl⟩ := Prod.mk.inj (hsub.symm.trans he)
      rfl
    · obtain ⟨-, rfl⟩ := Prod.mk.inj (hsub.symm.trans he)
      rfl
  | _ => rfl

theorem entered_returned {les : List (Uvloop.Event Req)} {f : Api} {ok : Bool}
    (h : (les.map Event.loop).filterMap Event.entered = []) :
    (les.map Event.loop ++ [Event.returned t f ok]).filterMap Event.entered = [] := by
  rw [List.filterMap_append, h]
  rfl

theorem Covered.step (hw : s.Wired) (h : Covered s req ran begun)
    (hs : s.step a = some (s', es)) :
    Covered s' req (ran + (es.filterMap Event.entered).count req) (begun + a.asks req) := by
  cases step_cases hs with
  | registerTimer | setTimer | addReqFault => exact h.quiet rfl rfl le_rfl
  | expire _ _ hb | expireFault _ _ hb =>
    refine h.quiet rfl rfl ?_
    simp [restarts, hb, Body.resets, Body.again]
  | loop a c th les hl ht =>
    have hcall : (∀ t, c ≠ .lock t) ∧ ∀ b, c ≠ .turn b := by
      cases hl <;> simp
    rw [entered_of_call ht hcall.2]
    cases hl <;> exact h.quiet rfl (waiting_of_quiet ht hcall.1 hcall.2) le_rfl
  | request t f hi =>
    have hnone : (if s.begin f = .idle then [Event.returned t f true] else []).filterMap
        Event.entered = [] := by split <;> rfl
    rw [hnone]
    refine h.move rfl (.inl rfl) (o := none) ?_
    have howes := Bool.toNat_le_toNat (s.owes_begin f req)
    have hidle : ((s.call t).owes req).toNat = 0 := by rw [hi.1]; rfl
    change s.restarts req + ((s.begin f).owes req).toNat + 0 + begun ≤
      s.restarts req + ((s.call t).owes req).toNat + (begun + (f.leadsTo req).toNat)
    omega
  | force t hc =>
    refine h.move rfl (.inl rfl) (o := none) ?_
    rw [hc]
    by_cases hr : req = .timerStart
    · subst hr
      have hbefore : s.body.again.toNat ≤ s.restarts .timerStart := by simp [restarts]
      have hafter : restarts { s with
          bRestartTimer := true, call := update s.call t .restarting } .timerStart =
          1 + s.body.again.toNat := by
        simp [restarts]
      rw [hafter]
      change 1 + s.body.again.toNat + 0 + 0 + begun ≤ s.restarts .timerStart + 1 + (begun + 0)
      omega
    · simp only [restarts, hr, Caller.owes, Act.asks, if_false, Nat.zero_add, Nat.add_zero]
      have hle := Bool.toNat_le_toNat (Bool.right_le_or (req == .timerStart) (req == .timerStop))
      have hnothing : ((none : Option Req) == some req).toNat = 0 := rfl
      omega
  | addReq t f r th les hc ht =>
    rw [entered_of_call ht (by simp)]
    exact h.quiet rfl (waiting_of_quiet ht (by simp) (by simp)) le_rfl
  | refused t f r th les hc ht =>
    rw [entered_returned (entered_of_call ht (by simp))]
    refine h.move rfl (.inl (waiting_of_quiet ht (by simp) (by simp))) (o := none) ?_
    simp [restarts, Caller.owes, Act.asks]
  | lock t f r th les err hc ht =>
    rw [entered_returned (entered_of_call ht (by simp))]
    refine h.move rfl (waiting_of_fill hw (hw.locking hc ht).2 rfl) ?_
    have hadded := (Bool.toNat_le_toNat (callback_le_own r.eType r req)).trans
      (toNat_own_le hc)
    change s.restarts req + 0 + _ + begun ≤ s.restarts req + ((s.call t).owes req).toNat + begun
    omega
  | lockStop t th les hc ht =>
    rw [entered_of_call ht (by simp)]
    obtain ⟨fill, hfill, -, hsub⟩ := Uvloop.Threads.lock_cases ht
    have hstop : fill = .stop := by
      rcases hw.calls t fill hfill with ⟨hstop, -⟩ | ⟨f, r, hserves, -⟩
      · exact hstop
      · cases hc.symm.trans hserves
    subst hstop
    exact h.put rfl (waiting_of_fill hw hsub rfl) le_rfl
  | turn b th les hb ht =>
    obtain ⟨-, hturn⟩ := Uvloop.Threads.turn_cases ht
    have hrestarts := s.restarts_of_next b th.loop.position th req
    cases b with
    | fire x =>
      rw [entered_of_turn hw hturn, request_of_fire hw hturn]
      refine h.fire (i := x) ?_ ?_ hrestarts
      · rfl
      · exact hw.loop.loop.carried_of_fire hturn
    | tcbReturn | recycle | skip | newPass | leave | clearRunning =>
      rw [entered_of_turn hw hturn]
      refine h.quiet rfl (waiting_congr ?_) hrestarts
      exact hw.loop.loop.carries_of_turn hturn (by simp)
  | perform _ _ hp =>
    rw [entered_of_perform hp]
    exact h.perform hw hp

/-! ## What the timer of libuv is told -/

def Event.Quiet (e : Event) : Prop :=
  (∀ c, Event.arm c e = c ∧ Event.expires c e = none) ∧ e.made = none

theorem quiet_of_ne {e : Event} (hm : e.made = none) (he : e ≠ .expired) : e.Quiet := by
  refine ⟨fun c => ?_, hm⟩
  cases e with
  | timerStart | timerStop => cases hm
  | expired => exact (he rfl).elim
  | loop | returned | timerInit | fault => rcases c with _ | _ | period <;> exact ⟨rfl, rfl⟩

theorem quiet_loop {les : List (Uvloop.Event Req)} {e : Event} (he : e ∈ les.map Event.loop) :
    e.Quiet := by
  obtain ⟨l, -, rfl⟩ := List.mem_map.mp he
  exact quiet_of_ne rfl (by simp)

theorem quiet_returned {f : Api} {ok : Bool} : (Event.returned t f ok).Quiet :=
  quiet_of_ne rfl (by simp)

theorem quiet_fault : Event.fault.Quiet := quiet_of_ne rfl (by simp)

theorem quiet_end {les : List (Uvloop.Event Req)} {f : Api} {ok : Bool} {e : Event}
    (he : e ∈ les.map Event.loop ++ [.returned t f ok]) : e.Quiet := by
  rcases List.mem_append.mp he with he | he
  · exact quiet_loop he
  · rw [List.mem_singleton.mp he]
    exact quiet_returned

/-- The calls of libuv are those that the requests ask for, and libuv keeps what they leave. -/
structure Told (tr : List Event) (s : Uvtimer) : Prop where
  served : Passes Event.entered Event.made [] tr s.body.before.toList
  active : ∀ period, s.timer = .inited true period ↔ armed tr = some period
  started : none ∉ expirations tr

theorem Told.keep (h : Told tr s) (hq : ∀ e ∈ es, e.Quiet) (ht : s'.timer = s.timer)
    (hr : s.body.before.toList ++ es.filterMap Event.entered = s'.body.before.toList) :
    Told (tr ++ es) s' := by
  obtain ⟨hfold, hread⟩ := gathered_of_same (c := armed tr) fun e he => (hq e he).1 (armed tr)
  have hmade := List.filterMap_eq_nil_iff.mpr fun e he => (hq e he).2
  constructor
  case served =>
    apply h.served.trans
    rw [Passes, hr, hmade, List.nil_append]
  case active =>
    rw [ht, armed_append, hfold]
    exact h.active
  case started =>
    rw [expirations_append, hread, List.append_nil]
    exact h.started

theorem Told.quiet (h : Told tr s) (hq : ∀ e ∈ es, e.Quiet) (ht : s'.timer = s.timer)
    (hr : es.filterMap Event.entered = []) (hb : s'.body.before = s.body.before) :
    Told (tr ++ es) s' :=
  h.keep hq ht (by rw [hr, hb, List.append_nil])

theorem Told.make (h : Told tr s) (hb : s.body.before = some req)
    (hr : es.filterMap Event.entered = []) (hm : es.filterMap Event.made = [req])
    (hb' : s'.body.before = none)
    (ha : ∀ period, s'.timer = .inited true period ↔ es.foldl Event.arm (armed tr) = some period)
    (he : gathered Event.arm Event.expires (armed tr) es = []) : Told (tr ++ es) s' := by
  constructor
  case served =>
    apply h.served.trans
    rw [Passes, hr, hm, hb, hb']
    rfl
  case active =>
    rw [armed_append]
    exact ha
  case started =>
    rw [expirations_append, he, List.append_nil]
    exact h.started

theorem Told.expire (h : Told tr s) {period : ℕ} (ht : s.timer = .inited true period)
    (hb : s.body.before = none) (hb' : s'.body.before = none)
    (ht' : s'.timer = .inited (decide (period ≠ 0)) period) : Told (tr ++ [.expired]) s' := by
  have harmed := (h.active period).mp ht
  constructor
  case served =>
    apply h.served.trans
    rw [Passes, hb, hb']
    rfl
  case active =>
    intro q
    rw [armed_append, harmed, ht']
    rcases period with _ | period <;> simp [Event.arm]
  case started =>
    rw [expirations_append, harmed]
    simpa [gathered, Event.expires] using h.started

theorem Told.perform (h : Told tr s) (hp : PerformCases s s' es) : Told (tr ++ es) s' := by
  have hr := entered_of_perform hp
  cases hp with
  | timerStart hb =>
    exact h.make (by rw [hb]; rfl) hr rfl rfl (by simp [Event.arm, eq_comm]) rfl
  | timerStop active period hb =>
    exact h.make (by rw [hb]; rfl) hr rfl rfl (by simp [Event.arm]) rfl
  | timerStopRaw hb ht =>
    exact h.make (by rw [hb]; rfl) hr rfl rfl (by simp [Event.arm, ht]) rfl
  | timerStopFault | startFault =>
    refine h.quiet (fun e he => ?_) rfl hr rfl
    rw [List.mem_singleton.mp he]
    exact quiet_fault
  | startAgain loop les hb => exact h.quiet (fun e => quiet_loop) rfl hr (by rw [hb]; rfl)
  | startRefused hb =>
    have hloop : ∀ e ∈ [Uvloop.Event.refused .stop].map Event.loop, e.Quiet := fun e => quiet_loop
    exact h.quiet hloop rfl hr (by rw [hb]; rfl)
  | started hb | stopped hb | done hb | restart hb | restarting hb | startedAlready hb
  | repeating hb | ending hb | ended hb =>
    exact h.quiet (fun e he => by cases he) rfl hr (by rw [hb]; rfl)

theorem Told.step (hw : s.Wired) (h : Told tr s) (hs : s.step a = some (s', es)) :
    Told (tr ++ es) s' := by
  cases step_cases hs with
  | registerTimer | setTimer | force => exact h.quiet (fun e he => by cases he) rfl rfl rfl
  | addReqFault =>
    refine h.quiet (fun e he => ?_) rfl rfl rfl
    rw [List.mem_singleton.mp he]
    exact quiet_fault
  | loop a c th les hl ht =>
    refine h.quiet (fun e => quiet_loop) rfl (entered_of_call ht ?_) rfl
    cases hl <;> simp
  | request t f =>
    refine h.quiet (fun e he => ?_) rfl ?_ rfl
    · split at he
      · rw [List.mem_singleton.mp he]
        exact quiet_returned
      · cases he
    · split <;> rfl
  | addReq t f r th les hc ht =>
    exact h.quiet (fun e => quiet_loop) rfl (entered_of_call ht (by simp)) rfl
  | lockStop t th les hc ht =>
    exact h.quiet (fun e => quiet_loop) rfl (entered_of_call ht (by simp)) rfl
  | refused t f r th les hc ht =>
    exact h.quiet (fun e => quiet_end) rfl (entered_returned (entered_of_call ht (by simp))) rfl
  | lock t f r th les err hc ht =>
    exact h.quiet (fun e => quiet_end) rfl (entered_returned (entered_of_call ht (by simp))) rfl
  | turn b th les hb ht =>
    obtain ⟨-, hturn⟩ := Uvloop.Threads.turn_cases ht
    refine h.keep (fun e => quiet_loop) rfl ?_
    rw [entered_of_turn hw hturn, hb, before_of_next]
    rfl
  | perform _ _ hp => exact h.perform hp
  | expire period ht hb => exact h.expire ht (by rw [hb]; rfl) rfl rfl
  | expireFault period ht hb =>
    have hexpire : Told (tr ++ [.expired]) { s with
        timer := .inited (decide (period ≠ 0)) period, body := .timercb } :=
      h.expire ht (by rw [hb]; rfl) rfl rfl
    rw [show tr ++ [Event.expired, .fault] = (tr ++ [.expired]) ++ [.fault] by simp]
    refine hexpire.quiet (fun e he => ?_) rfl rfl rfl
    rw [List.mem_singleton.mp he]
    exact quiet_fault

/-! ## Whole histories -/

variable {p : Uvtimer × (Req → ℕ)}

structure Accounts (tr : List Event) (p : Uvtimer × (Req → ℕ)) : Prop where
  /-- Each request that the loop runs makes one call of libuv, one after the other. -/
  served : tr.filterMap Event.entered = tr.filterMap Event.made ++ p.1.body.before.toList
  /-- Each of these is due to a call of its own. -/
  due : ∀ req, (tr.filterMap Event.made).count req ≤ p.2 req
  /-- As long as no active timer is initialised again, the timer is active, and runs out, only
  where it has been started: not behind a stop, and without repeat once for each start. -/
  active : .timerInit true ∉ tr → p.1.timer.active = (armed tr).isSome
  started : .timerInit true ∉ tr → none ∉ expirations tr
  once : .timerInit true ∉ tr → (expirations tr).count (some 0) ≤ p.2 .timerStart

theorem covered_create (garbage : ℕ → EType) (bit : Bool) (req : Req) :
    Covered (create garbage bit) req 0 0 := by
  refine ⟨0, 0, tally_zero fun t => rfl, tally_zero fun h => ?_, ?_⟩
  · simp [waiting, Uvloop.carried, Uvloop.carries, create, Uvloop.create]
  · simp [restarts, create, Body.resets, Body.again]

theorem told_create (garbage : ℕ → EType) (bit : Bool) : Told [] (create garbage bit) where
  served := rfl
  active := by simp [create, armed]
  started := by simp [expirations, gathered]

theorem told_of_reach (h : counted.Reach (fun _ a => othersBehave a) tr p) :
    p.1.Wired ∧ Told tr p.1 ∧
      ∀ req, Covered p.1 req ((tr.filterMap Event.entered).count req) (p.2 req) := by
  refine h.invariant (I := fun tr p => p.1.Wired ∧ Told tr p.1 ∧
    ∀ req, Covered p.1 req ((tr.filterMap Event.entered).count req) (p.2 req)) ?_ ?_
  · rintro ⟨s, n⟩ ⟨⟨garbage, bit, rfl⟩, rfl⟩
    exact ⟨wired_create garbage bit, told_create garbage bit, covered_create garbage bit⟩
  · rintro tr p a p' es - ⟨hw, ht, hc⟩ hg hs
    obtain ⟨hs, hn⟩ := System.observed_step.mp hs
    refine ⟨hw.step hg hs, ht.step hw hs, fun req => ?_⟩
    rw [List.filterMap_append, List.count_append, hn]
    exact (hc req).step hw hs

/-- Whatever threads call the functions of the timer, in whatever order the loop runs the
requests and whichever stop takes a restart for its own. -/
theorem accounts_of_reach (h : counted.Reach (fun _ a => othersBehave a) tr p) :
    Accounts tr p := by
  obtain ⟨-, ht, hc⟩ := told_of_reach h
  have hserved : tr.filterMap Event.entered = tr.filterMap Event.made ++ p.1.body.before.toList :=
    ht.served
  have hdue : ∀ req, (tr.filterMap Event.made).count req ≤ p.2 req := by
    intro req
    obtain ⟨calls, waits, -, -, hsum⟩ := hc req
    rw [hserved, List.count_append] at hsum
    omega
  constructor
  case served => exact hserved
  case due => exact hdue
  case active =>
    intro _
    rw [Bool.eq_iff_iff, Option.isSome_iff_exists]
    constructor
    · intro hactive
      cases hs : p.1.timer with
      | raw bit => simp [hs, UvTimer.active] at hactive
      | inited active period =>
        obtain rfl : active = true := by simpa [hs, UvTimer.active] using hactive
        exact ⟨period, (ht.active period).mp hs⟩
    · rintro ⟨period, hp⟩
      rw [(ht.active period).mpr hp]
      rfl
  case started => exact fun _ => ht.started
  case once =>
    intro _
    have hle := count_expirations_add_le none tr
    have hstarts := hdue .timerStart
    simp only [reduceCtorEq, if_false, Nat.zero_add] at hle
    rw [expirations]
    omega

/-- A restart is one more start, and the timer runs out once. -/
theorem accounts_of_reach_example : ∃ tr p,
    counted.Reach (fun _ a => othersBehave a) tr p ∧
    tr.filterMap Event.made = [.timerStart, .timerStop, .timerStart] ∧
    expirations tr = [some 0] ∧ .timerInit true ∉ tr ∧ p.2 .timerStart = 2 ∧
    Accounts tr p := by
  obtain ⟨tr, p, hr, hp⟩ := System.exists_run_of_exec (M := counted)
    (G := fun _ a => othersBehave a)
    (s := (create (fun _ => .loopStop) false, fun _ => 0))
    [.registerTimer, .setTimer true 5 0, .run 0, .setRunning 0, .request 1 (.startTimer false),
      .addReq 1, .lock 1, .turn (.fire 0), .perform, .perform, .turn .tcbReturn, .turn .recycle,
      .request 1 (.startTimer true), .force 1, .addReq 1, .lock 1, .turn (.fire 1), .perform,
      .perform, .perform, .perform, .perform, .turn .tcbReturn, .turn .recycle, .turn (.fire 2),
      .perform, .perform, .turn .tcbReturn, .turn .recycle, .expire]
    (p := fun p tr => decide (tr.filterMap Event.made = [.timerStart, .timerStop, .timerStart] ∧
      expirations tr = [some 0] ∧ .timerInit true ∉ tr ∧ p.2 .timerStart = 2)) (by decide +kernel)
  have h : counted.Reach (fun _ a => othersBehave a) tr p := ⟨_, ⟨⟨_, _, rfl⟩, rfl⟩, hr⟩
  obtain ⟨hmade, hexpired, hinit, hcalls⟩ := of_decide_eq_true hp
  exact ⟨tr, p, h, hmade, hexpired, hinit, hcalls, accounts_of_reach h⟩

end UvWrapper.Uvtimer
