import UvWrapper.Libuv
import UvWrapper.Loop.Threads

/-! # The timer

The class `uvtimer` over its request loop. Its public functions decide on any thread by
`m_bTimerStarted` and add requests; its private functions and the timer callback run on the
loop thread, which writes the flag behind the call of libuv that it speaks of.
-/

namespace UvWrapper

open Function Transition

namespace Uvtimer

/-- The callbacks that the handles of the loop carry: the private functions of this timer,
bound to it, and those of the other users of the loop. -/
inductive Req
  | timerStart | timerStop
  | other (eEventType : EType) (id : ℕ)
  deriving DecidableEq

def Req.eType : Req → EType
  | .timerStart => .timerStart
  | .timerStop => .timerStop
  | .other eEventType _ => eEventType

def Req.own : Req → Option Req
  | .other _ _ => none
  | req => some req

inductive Api
  | startTimer (bForceRestart : Bool)
  | stopTimer
  | other (eEventType : EType) (id : ℕ)
  deriving DecidableEq

/-- What a thread is doing: nothing; `startTimer` that has found `m_bTimerStarted` false;
`startTimer(true)` that has found it true, before it sets `m_bRestartTimer` and behind that, in
`StopTimer`; `StopTimer`; another user's `AddReq`. -/
inductive Caller
  | idle
  | starting (bForceRestart : Bool)
  | forcing
  | restarting
  | stopping
  | adding (eEventType : EType) (id : ℕ)
  deriving DecidableEq

def Caller.serves : Caller → Option (Api × Req)
  | .idle | .forcing => none
  | .starting bForceRestart => some (.startTimer bForceRestart, .timerStart)
  | .restarting => some (.startTimer true, .timerStop)
  | .stopping => some (.stopTimer, .timerStop)
  | .adding eEventType id => some (.other eEventType id, .other eEventType id)

/-- What the function returns; `startTimer(true)` does not look at the result of
`StopTimer`. -/
def Caller.result : Caller → LoopErr → Bool
  | .restarting, _ => true
  | _, err => err == .noErr

/-- Where the loop thread is in the functions of this timer: in none; in `timerStart`, before
and behind `uv_timer_start`; in `timerStop`, before and behind `uv_timer_stop`, at the test of
`m_bRestartTimer`, behind it where it was true, and at the call of `startTimer`; in
`m_pTimercb`; in the timer callback where `m_repeat` was 0. -/
inductive Body
  | none
  | timerStart | started
  | timerStop | stopped | testing | restarting | startingAgain
  | timercb | ending
  deriving DecidableEq

def Body.request : Body → Option Req
  | .timerStart | .started => some .timerStart
  | .timerStop | .stopped | .testing | .restarting | .startingAgain => some .timerStop
  | .none | .timercb | .ending => Option.none

def Body.enter : Option Req → Body
  | some .timerStart => .timerStart
  | some .timerStop => .timerStop
  | _ => .none

end Uvtimer

/-- The fields of `uvtimer` and the loop it is registered with. `ploop` and `timercb` say that
`m_ploop` and `m_pTimercb` are set; `timer` is libuv's. -/
structure Uvtimer where
  threads : Uvloop.Threads Uvtimer.Req
  ploop : Bool
  timercb : Bool
  mDelay : ℕ
  mRepeat : ℕ
  bTimerStarted : Bool
  bRestartTimer : Bool
  timer : UvTimer
  call : ℕ → Uvtimer.Caller
  body : Uvtimer.Body
  crashed : Bool

namespace Uvtimer

inductive Event
  | loop (e : Uvloop.Event Req)
  | returned (t : ℕ) (f : Api) (ok : Bool)
  | timerInit (active : Bool)
  | timerStart (delay period : ℕ)
  | timerStop
  | expired
  | fault
  deriving DecidableEq

def create (garbage : ℕ → EType) (bit : Bool) : Uvtimer where
  threads := ⟨Uvloop.create garbage, fun _ => .idle⟩
  ploop := false
  timercb := false
  mDelay := 0
  mRepeat := 0
  bTimerStarted := false
  bRestartTimer := false
  timer := .raw bit
  call _ := .idle
  body := .none
  crashed := false

def crash (s : Uvtimer) (es : List Event) : Uvtimer × List Event :=
  ({ s with crashed := true }, es)

/-- The part of the public functions before `AddReq` or before `m_bRestartTimer` is set. -/
def begin (s : Uvtimer) : Api → Caller
  | .startTimer bForceRestart =>
    if s.bTimerStarted = false then .starting bForceRestart
    else if bForceRestart then .forcing else .idle
  | .stopTimer => .stopping
  | .other eEventType id => .adding eEventType id

/-- `timerStart` up to `uv_timer_start`, which fails only where there is no callback. libuv's
timer is a flag here, and only an active one runs out. Of a timer that was active
`uv_timer_init` leaves the node in libuv's heap; what comes of that is not modelled, and
`timerInit true` marks the histories in which it happens. -/
def timerStart (s : Uvtimer) : Uvtimer × List Event :=
  ({ s with timer := .inited true s.mRepeat, body := .started },
    [.timerInit s.timer.active, .timerStart s.mDelay s.mRepeat])

/-- `timerStop` up to `uv_timer_stop`, which takes an active timer out of libuv's heap; memory
that only looks like an active timer is not there. -/
def timerStop (s : Uvtimer) : Uvtimer × List Event :=
  match s.timer with
  | .raw true => s.crash [.fault]
  | .raw false => ({ s with body := .stopped }, [.timerStop])
  | .inited _ period => ({ s with timer := .inited false period, body := .stopped }, [.timerStop])

/-- `startTimer` as `timerStop` calls it. Nothing runs between its tests and the lock that
could change what they read. -/
def startAgain (s : Uvtimer) : Uvtimer × List Event :=
  let s₁ := { s with body := .none }
  if s.bTimerStarted then (s₁, [])
  else if s.ploop = false then s.crash [.fault]
  else if s.threads.loop.bRunning then
    let (loop, es) := s.threads.loop.submit (.addReq .timerStart (some .timerStart))
    ({ s₁ with threads := { s.threads with loop } }, es.map .loop)
  else (s₁, [.loop (.refused .stop)])

/-- The next step of the loop thread in a function of this timer. The timer callback tests
`m_repeat` when `m_pTimercb` returns. -/
def perform (s : Uvtimer) : Option (Uvtimer × List Event) :=
  match s.body with
  | .none => none
  | .timerStart => some s.timerStart
  | .started => some ({ s with bTimerStarted := true, body := .none }, [])
  | .timerStop => some s.timerStop
  | .stopped => some ({ s with bTimerStarted := false, body := .testing }, [])
  | .testing => some ({ s with body := if s.bRestartTimer then .restarting else .none }, [])
  | .restarting => some ({ s with bRestartTimer := false, body := .startingAgain }, [])
  | .startingAgain => some s.startAgain
  | .timercb => some ({ s with body := if s.mRepeat = 0 then .ending else .none }, [])
  | .ending => some ({ s with bTimerStarted := false, body := .none }, [])

/-- libuv runs a timer that is due: one without repeat is stopped, any other is started again
before the callback is called. An empty `m_pTimercb` throws. -/
def expire (s : Uvtimer) (period : ℕ) : Uvtimer × List Event :=
  let s₁ := { s with timer := .inited (decide (period ≠ 0)) period, body := .timercb }
  if s.timercb then (s₁, [.expired]) else s₁.crash [.expired, .fault]

/-- The steps: configuration; the public functions on any thread `t`, in the pieces in which
other threads see them; the loop thread and the expirations of the timer. -/
inductive Act
  | registerTimer
  | setTimer (ticb : Bool) (delay period : ℕ)
  | run (t : ℕ)
  | setRunning (t : ℕ)
  | stop (t : ℕ)
  | request (t : ℕ) (f : Api)
  | force (t : ℕ)
  | addReq (t : ℕ)
  | lock (t : ℕ)
  | turn (a : Uvloop.Turn)
  | perform
  | expire

def Idle (s : Uvtimer) (t : ℕ) : Prop := s.call t = .idle ∧ s.threads.call t = .idle

instance (s : Uvtimer) (t : ℕ) : Decidable (s.Idle t) := inferInstanceAs (Decidable (_ ∧ _))

def loopStep (s : Uvtimer) (a : Uvloop.Act Req) : Option (Uvtimer × List Event) :=
  (s.threads.step a).map fun p => ({ s with threads := p.1 }, p.2.map .loop)

def finish (s : Uvtimer) (t : ℕ) (err : LoopErr) (p : Uvtimer × List Event) :
    Uvtimer × List Event :=
  match (s.call t).serves with
  | some (f, _) =>
    ({ p.1 with call := update s.call t .idle },
      p.2 ++ [.returned t f ((s.call t).result err)])
  | none => p

/-- The place in this timer's functions that the loop thread enters. -/
def nextBody (s : Uvtimer) (a : Uvloop.Turn) (position : Position) : Body :=
  match a, position with
  | .fire h, .running _ => .enter (s.threads.loop.async h).tcb
  | _, _ => .none

/-- Between two of these steps other threads may run. A timer expires where the loop thread
is between two callbacks. -/
def step (s : Uvtimer) (a : Act) : Option (Uvtimer × List Event) :=
  if s.crashed then none
  else
    match a with
    | .registerTimer => some ({ s with ploop := true }, [])
    | .setTimer ticb delay period =>
      some ({ s with timercb := ticb, mDelay := delay, mRepeat := period }, [])
    | .run t => if s.Idle t then s.loopStep (.run t) else none
    | .setRunning t => s.loopStep (.setRunning t)
    | .stop t => if s.Idle t then s.loopStep (.call t .stop) else none
    | .request t f =>
      if s.Idle t then
        some ({ s with call := update s.call t (s.begin f) },
          if s.begin f = .idle then [.returned t f true] else [])
      else none
    | .force t =>
      if s.call t = .forcing then
        some ({ s with bRestartTimer := true, call := update s.call t .restarting }, [])
      else none
    | .addReq t =>
      match (s.call t).serves with
      | some (_, req) =>
        if req.own.isSome && !s.ploop then some (s.crash [.fault])
        else
          (s.loopStep (.call t (.addReq req.eType (some req)))).map fun p =>
            if s.threads.loop.bRunning then p else s.finish t .stop p
      | none => none
    | .lock t =>
      (s.loopStep (.lock t)).map (s.finish t (if s.threads.loop.dAsync = [] then .busy else .noErr))
    | .turn a =>
      if s.body = .none then
        (s.loopStep (.turn a)).map fun p =>
          ({ p.1 with body := s.nextBody a p.1.threads.loop.position }, p.2)
      else none
    | .perform => s.perform
    | .expire =>
      match s.timer with
      | .inited true period =>
        if s.threads.loop.position = .polling ∧ s.body = .none then some (s.expire period) else none
      | _ => none

def Init (s : Uvtimer) : Prop := ∃ garbage bit, s = create garbage bit

def timed : System Uvtimer Act Event := ⟨Init, step⟩

end Uvtimer

end UvWrapper
