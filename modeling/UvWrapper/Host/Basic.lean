import UvWrapper.Connect.Basic
import UvWrapper.Loop.Map

/-! # Connections that share a loop

Any number of `uvconnect` objects registered with one `uvloop`, together with other users of
the loop, on any number of threads. The loop thread runs the requests of all of them one
after the other, from the same pool of handles. A connection keeps its own fields; whatever
it sees of the loop is shared. Each connection names its tcp handles for itself: that the
memory of a handle may be freed and given to another connection is left aside.
-/

namespace UvWrapper

open Function Transition Uvloop

namespace Host

/-- The callbacks that the handles of a shared loop carry: a private function of one of the
connections, bound to it, or that of another user. -/
inductive Task
  | conn (i : ℕ) (req : Req)
  | other (eEventType : EType) (id : ℕ)
  deriving DecidableEq

def Task.eType : Task → EType
  | .conn _ req => req.eType
  | .other eEventType _ => eEventType

/-- A callback as the connection `i` sees it: those of the other connections are like those
of any other user. -/
def Task.seen (i : ℕ) : Task → Req
  | .conn j req => if j = i then req else .other req.eType 0
  | .other eEventType id => .other eEventType id

/-- What a thread is doing before `AddReq`: nothing; a function of a connection; another
user of the loop that is about to call `AddReq`. -/
inductive Place
  | idle
  | conn (i : ℕ) (c : Writer)
  | other (eEventType : EType) (id : ℕ)
  deriving DecidableEq

def Place.task : Place → Option Task
  | .conn i (.requesting req) => some (.conn i req)
  | .other eEventType id => some (.other eEventType id)
  | _ => none

/-- A thread as a connection sees it that is not the one it is in. -/
def foreign : Writer → Writer
  | .requesting req => .requesting (.other req.eType 0)
  | _ => .idle

def Place.seen (i : ℕ) : Place → Writer
  | .idle => .idle
  | .conn j c => if j = i then c else foreign c
  | .other eEventType id => .requesting (.other eEventType id)

/-- The place of a thread in a function of the connection `i`, once it is in none again. -/
def Place.of (i : ℕ) (c : Writer) : Place := if c = .idle then .idle else .conn i c

structure Member where
  bConnectSuccess : Bool
  bReconect : Bool
  ploop : Bool
  handler : Bool
  addr : Option Sockaddr
  stream : Option ℕ
  dSend : List ℕ
  mapSend : Finset ℕ
  send : ℕ → StSend
  created : ℕ
  writing : ℕ → Option UvBuf
  tcps : ℕ
  tcp : ℕ → TcpState
  reading : ℕ → Bool

def memberOf (s : Uvconnect) : Member where
  bConnectSuccess := s.bConnectSuccess
  bReconect := s.bReconect
  ploop := s.ploop
  handler := s.handler
  addr := s.addr
  stream := s.stream
  dSend := s.dSend
  mapSend := s.mapSend
  send := s.send
  created := s.created
  writing := s.writing
  tcps := s.tcps
  tcp := s.tcp
  reading := s.reading

end Host

/-- The loop with its threads, the connections by number, and the connection in whose code
the program has ended. -/
structure Host where
  threads : Threads Host.Task
  conn : ℕ → Host.Member
  call : ℕ → Host.Place
  body : Option Host.Task
  crashed : Option ℕ

namespace Host

/-- What becomes visible: of the loop, of one of the connections, and what `AddReq` returns
with. -/
inductive Event
  | loop (e : Uvloop.Event Task)
  | conn (i : ℕ) (e : Uvconnect.Event)
  | returned (t : ℕ) (task : Task) (err : LoopErr)
  deriving DecidableEq

def create (garbage : ℕ → EType) (send : ℕ → ℕ → StSend) : Host where
  threads := ⟨Uvloop.create garbage, fun _ => .idle⟩
  conn i := memberOf (.create garbage (send i))
  call _ := .idle
  body := none
  crashed := none

/-- What the code of the connection `i` works on. -/
def view (i : ℕ) (s : Host) : Uvconnect where
  threads := s.threads.map (Task.seen i)
  bConnectSuccess := (s.conn i).bConnectSuccess
  bReconect := (s.conn i).bReconect
  ploop := (s.conn i).ploop
  handler := (s.conn i).handler
  addr := (s.conn i).addr
  stream := (s.conn i).stream
  dSend := (s.conn i).dSend
  mapSend := (s.conn i).mapSend
  send := (s.conn i).send
  created := (s.conn i).created
  writing := (s.conn i).writing
  tcps := (s.conn i).tcps
  tcp := (s.conn i).tcp
  reading := (s.conn i).reading
  call t := (s.call t).seen i
  body := s.body.map (Task.seen i)
  crashed := decide (s.crashed = some i)

/-- The steps of a connection that neither touch the loop nor run a request. -/
def owned : Uvconnect.Act → Bool
  | .registerConnect | .registerloopAndStream | .setEventHandler _ | .setIPAndAddr _
  | .wirteData _ _ | .takeSend _ _ | .readmem _ _ _ | .connectCb _ _ | .readCb _ _
  | .writeCb _ _ => true
  | .request _ f => match f with
    | .other _ _ => false
    | _ => true
  | .run _ | .setRunning _ | .stop _ | .addReq _ | .lock _ | .turn _ | .perform _
  | .closeCb _ => false

def caller : Uvconnect.Act → Option ℕ
  | .wirteData t _ | .takeSend t _ | .readmem t _ _ | .request t _ => some t
  | _ => none

def enters : Uvconnect.Act → Option ℕ
  | .wirteData t _ | .request t _ => some t
  | _ => none

/-- The steps: of one connection by itself; its close callback; the other users of the loop;
`AddReq` for all of them; the loop and its thread. -/
inductive Act
  | conn (i : ℕ) (a : Uvconnect.Act)
  | closeCb (i h : ℕ)
  | run (t : ℕ)
  | setRunning (t : ℕ)
  | stop (t : ℕ)
  | request (t : ℕ) (eEventType : EType) (id : ℕ)
  | addReq (t : ℕ)
  | lock (t : ℕ)
  | turn (a : Turn)
  | perform (err : ℤ)

def Idle (s : Host) (t : ℕ) : Prop := s.call t = .idle ∧ s.threads.call t = .idle

instance (s : Host) (t : ℕ) : Decidable (s.Idle t) := inferInstanceAs (Decidable (_ ∧ _))

def crash (s : Host) (i : ℕ) (es : List Event) : Host × List Event :=
  ({ s with crashed := some i }, es)

def loopStep (s : Host) (a : Uvloop.Act Task) : Option (Host × List Event) :=
  (s.threads.step a).map fun p => ({ s with threads := p.1 }, p.2.map .loop)

/-- What the code of the connection `i` has done, on the thread `t` where one is in it. -/
def put (s : Host) (i : ℕ) (t : Option ℕ) (p : Uvconnect × List Uvconnect.Event) :
    Host × List Event :=
  ({ s with
      conn := update s.conn i (memberOf p.1)
      call := match t with
        | some t => update s.call t (.of i (p.1.call t))
        | none => s.call
      crashed := if p.1.crashed then some i else none },
    p.2.map (.conn i))

/-- The connection whose `m_ploop` is not set when it calls `AddReq`. -/
def unregistered (s : Host) : Task → Option ℕ
  | .conn i req => if req.own && !(s.conn i).ploop then some i else none
  | .other _ _ => none

def perform (s : Host) (task : Task) (err : ℤ) : Host × List Event :=
  match task with
  | .conn i req => s.put i none ((s.view i).perform req err)
  | .other _ _ => (s, [])

def connectToServer (s : Host) (i : ℕ) : Host × List Event :=
  if (s.conn i).ploop = false then s.crash i [.conn i .fault]
  else
    let (threads, es) := s.threads.atOnce (.addReq .tcpConnect (some (.conn i .connect)))
    ({ s with threads }, es.map .loop)

def closed (s : Host) (i h : ℕ) : Host × List Event :=
  let m := { s.conn i with tcp := update (s.conn i).tcp h .closed }
  if m.bReconect then
    { s with conn := update s.conn i { m with bReconect := false } }.connectToServer i
  else ({ s with conn := update s.conn i m }, [])

def lockResult (s : Host) (t : ℕ) : List Event :=
  match s.threads.call t with
  | .locking (.addReq _ (some task)) =>
    [.returned t task (if s.threads.loop.dAsync = [] then .busy else .noErr)]
  | _ => []

def nextBody (s : Host) (a : Turn) (position : Position) : Option Task :=
  match a, position with
  | .fire h, .running _ => (s.threads.loop.async h).tcb
  | .fire _, _ => none
  | _, _ => s.body

/-- Between two of these steps other threads may run. -/
def step (w : ℕ) (s : Host) (a : Act) : Option (Host × List Event) :=
  if s.crashed.isSome then none
  else
    match a with
    | .conn i a =>
      if owned a = true ∧ ∀ t ∈ enters a, s.Idle t then
        ((s.view i).step w a).map (s.put i (caller a))
      else none
    | .closeCb i h =>
      if s.threads.loop.position = .polling ∧ (s.conn i).tcp h = .closing then some (s.closed i h)
      else none
    | .run t => if s.Idle t then s.loopStep (.run t) else none
    | .setRunning t => s.loopStep (.setRunning t)
    | .stop t => if s.Idle t then s.loopStep (.call t .stop) else none
    | .request t eEventType id =>
      if s.Idle t then some ({ s with call := update s.call t (.other eEventType id) }, [])
      else none
    | .addReq t =>
      match (s.call t).task with
      | some task =>
        match s.unregistered task with
        | some i => some (s.crash i [.conn i .fault])
        | none =>
          (s.loopStep (.call t (.addReq task.eType (some task)))).map fun p =>
            ({ p.1 with call := update s.call t .idle },
              p.2 ++ if s.threads.loop.bRunning then [] else [.returned t task .stop])
      | none => none
    | .lock t => (s.loopStep (.lock t)).map fun p => (p.1, p.2 ++ s.lockResult t)
    | .turn a =>
      if a = .tcbReturn ∧ s.body.isSome then none
      else
        (s.loopStep (.turn a)).map fun p =>
          ({ p.1 with body := s.nextBody a p.1.threads.loop.position }, p.2)
    | .perform err =>
      match s.body with
      | some task => some ({ s with body := none }.perform task err)
      | none => none

def Init (s : Host) : Prop := ∃ garbage send, s = create garbage send

def hosting (w : ℕ) : System Host Act Event := ⟨Init, step w⟩

end Host

end UvWrapper
