import UvWrapper.Host.Basic
import UvWrapper.Server.Basic

/-! # A server with its connections

`TcpServer` and the connections that its acceptor makes, on the loop that they share with each
other, with connections that the user has made, and with other users of the loop. The connection
callback makes a `uvconnect`, gives it the accepted stream and hands it over.
-/

namespace UvWrapper

open Function Transition Uvloop

/-- The loop with the connections, and the fields of the server beside it. `call` is the place of
each thread in the functions of the server, `made` the number of connections that exist, and
`crashed` says that the program has ended in the code of the server. -/
structure Service where
  host : Host
  listner : Uvaccept
  ip : String
  tcps : ℕ
  listens : ℕ → Bool
  call : ℕ → TcpServer.Caller
  made : ℕ
  crashed : Bool

namespace Service

/-- What becomes visible: of the loop and the connections, of the server, and that the connection
`i` is made of the handle `h`. -/
inductive Event
  | host (e : Host.Event)
  | server (e : TcpServer.Event)
  | accepted (i h : ℕ)
  deriving DecidableEq

def create (made : ℕ) (garbage : ℕ → EType) (send : ℕ → ℕ → StSend) : Service where
  host := .create garbage send
  listner := .create
  ip := ""
  tcps := 0
  listens _ := false
  call _ := .idle
  made := made
  crashed := false

/-! ## The server alone -/

/-- `ServerListenStart`, bound to the acceptor, among the callbacks of the loop. -/
def listenTask : Host.Task := .other .tcpListen 0

/-- The name of a callback that is not the server's. -/
def number : Host.Task → ℕ
  | .conn _ _ => 0
  | .other _ id => id

/-- A callback as the server sees it: those of the connections are like those of any other
user. -/
def serves (task : Host.Task) : TcpServer.Req :=
  if task = listenTask then .serverListenStart else .other task.eType (number task)

def foreign (p : Host.Place) (c : Call Host.Task) : TcpServer.Caller :=
  match p.task, c with
  | some task, _ | none, .locking (.addReq _ (some task)) => .adding task.eType (number task)
  | _, _ => .idle

/-- The place of a thread as the server sees it. -/
def place (s : Service) (t : ℕ) : TcpServer.Caller :=
  if s.call t = .idle then foreign (s.host.call t) (s.host.threads.call t) else s.call t

def server (s : Service) : TcpServer where
  threads := s.host.threads.map serves
  listner := s.listner
  ip := s.ip
  tcps := s.tcps
  listens := s.listens
  call := s.place
  body := s.host.body.map serves
  crashed := s.crashed

def owned : TcpServer.Act → Bool
  | .registerAccept | .setIPAndPort _ _ _ | .setNewConnectCallback _ | .configure _ _ => true
  | .request _ f => match f with
    | .other _ _ => false
    | .tcpListen _ _ _ | .listen => true
  | .run _ | .setRunning _ | .stop _ | .addReq _ | .lock _ | .turn _ | .perform _ _ _
  | .connectionCb _ _ _ _ => false

def caller : TcpServer.Act → Option ℕ
  | .request t _ | .configure t _ => some t
  | _ => none

def enters : TcpServer.Act → Option ℕ
  | .request t _ => some t
  | _ => none

/-! ## Steps -/

/-- The steps: of the loop, the connections and the other users; of the server by itself; `run`
in `tcpListen` and `AddReq` in `listen`; `ServerListenStart`; the connection callback. -/
inductive Act
  | host (a : Host.Act)
  | server (a : TcpServer.Act)
  | launch (t : ℕ)
  | addReq (t : ℕ)
  | serverListenStart (ini bnd lis : ℤ)
  | connectionCb (h : ℕ) (status ini acc : ℤ)

def Idle (s : Service) (t : ℕ) : Prop := s.call t = .idle ∧ s.host.Idle t

instance (s : Service) (t : ℕ) : Decidable (s.Idle t) := inferInstanceAs (Decidable (_ ∧ _))

/-- A connection that exists, a thread that is in no function of the server, a callback that is
not the server's. -/
def Apart (s : Service) : Host.Act → Prop
  | .conn i a => i < s.made ∧ ∀ t ∈ Host.enters a, s.call t = .idle
  | .run t | .stop t => s.call t = .idle
  | .request t eEventType id => s.call t = .idle ∧ Host.Task.other eEventType id ≠ listenTask
  | .perform _ => s.host.body ≠ some listenTask
  | .closeCb _ _ | .setRunning _ | .addReq _ | .lock _ | .turn _ => True

instance (s : Service) : DecidablePred s.Apart := fun a =>
  match a with
  | .conn i a =>
    inferInstanceAs (Decidable (i < s.made ∧ ∀ t ∈ Host.enters a, s.call t = .idle))
  | .run t | .stop t => inferInstanceAs (Decidable (s.call t = .idle))
  | .request t eEventType id =>
    inferInstanceAs (Decidable (s.call t = .idle ∧ Host.Task.other eEventType id ≠ listenTask))
  | .perform _ => inferInstanceAs (Decidable (s.host.body ≠ some listenTask))
  | .closeCb _ _ | .setRunning _ | .addReq _ | .lock _ | .turn _ => .isTrue trivial

def crash (s : Service) (es : List Event) : Service × List Event :=
  ({ s with crashed := true }, es)

def hostStep (w : ℕ) (s : Service) (a : Host.Act) : Option (Service × List Event) :=
  (s.host.step w a).map fun p => ({ s with host := p.1 }, p.2.map .host)

/-- What the code of the server has done, on the thread `t` where one is in it. -/
def put (s : Service) (t : Option ℕ) (p : TcpServer × List TcpServer.Event) :
    Service × List Event :=
  ({ s with
      listner := p.1.listner
      ip := p.1.ip
      tcps := p.1.tcps
      listens := p.1.listens
      call := match t with
        | some t => update s.call t (p.1.call t)
        | none => s.call
      crashed := p.1.crashed },
    p.2.map .server)

def finish (s : Service) (t : ℕ) (err : LoopErr) (p : Service × List Event) :
    Service × List Event :=
  match (s.call t).request with
  | some _ =>
    ({ p.1 with call := update s.call t .idle },
      p.2 ++ [.server (.returned t ((s.call t).result err))])
  | none => p

/-- A thread that returns from `run` or leaves the lock may be in a function of the server. -/
def goOn (s : Service) (a : Host.Act) (p : Service × List Event) : Service × List Event :=
  match a with
  | .setRunning t => ({ p.1 with call := update s.call t (s.call t).ran }, p.2)
  | .lock t => s.finish t (if s.host.threads.loop.dAsync = [] then .busy else .noErr) p
  | _ => p

def launch (w : ℕ) (s : Service) (t : ℕ) : Option (Service × List Event) :=
  match s.call t with
  | .starting ip port cb =>
    if s.host.threads.loop.bRunning then
      some ({ s with call := update s.call t (.storing ip port cb) }, [])
    else
      (s.hostStep w (.run t)).map fun p =>
        ({ p.1 with call := update s.call t (.launched ip port cb) }, p.2)
  | _ => none

def addReq (w : ℕ) (s : Service) (t : ℕ) : Option (Service × List Event) :=
  match (s.call t).request with
  | some .serverListenStart =>
    if s.listner.ploop = false then some (s.crash [.server .fault])
    else
      ({ s with host := { s.host with
          call := update s.host.call t (.other .tcpListen 0) } }.hostStep w (.addReq t)).map
        fun p => if s.host.threads.loop.bRunning then p else s.finish t .stop p
  | _ => none

/-- The connection callback; `ini` and `acc` are what `uv_tcp_init` and `uv_accept` return. The
connection is made, gets the stream and is given to `m_pConnectcb`, which throws if empty. -/
def connected (w : ℕ) (s : Service) (status ini acc : ℤ) : Option (Service × List Event) :=
  if status < 0 then some (s, [])
  else
    let h := s.tcps
    let s₁ := { s with tcps := h + 1 }
    if ini ≠ 0 then some (s₁.crash [.server (.tcpInit h), .server .fault])
    else if acc ≠ 0 then some (s₁, [.server (.tcpInit h)])
    else
      (s₁.hostStep w (.conn s.made .registerloopAndStream)).map fun p =>
        let s₂ := { p.1 with made := s.made + 1 }
        let es := .server (.tcpInit h) :: .accepted s.made h :: p.2
        match s.listner.connectcb with
        | none => s₂.crash (es ++ [.server .fault])
        | some cb => (s₂, es ++ [.server (.newConnection cb h)])

def step (w : ℕ) (s : Service) (a : Act) : Option (Service × List Event) :=
  if s.crashed = true ∨ s.host.crashed.isSome then none
  else
    match a with
    | .host a => if s.Apart a then (s.hostStep w a).map (s.goOn a) else none
    | .server a =>
      if owned a = true ∧ ∀ t ∈ enters a, s.Idle t then (s.server.step a).map (s.put (caller a))
      else none
    | .launch t => s.launch w t
    | .addReq t => s.addReq w t
    | .serverListenStart ini bnd lis =>
      if s.host.body = some listenTask then
        some ({ s with host := { s.host with body := none } }.put none
          (s.server.serverListenStart ini bnd lis))
      else none
    | .connectionCb h status ini acc =>
      if s.host.threads.loop.position = .polling ∧ s.listens h = true then
        s.connected w status ini acc
      else none

def Init (s : Service) : Prop := ∃ made garbage send, s = create made garbage send

/-- The server, its connections and the other users of their loop; `w` is the width of
`unsigned long`. -/
def service (w : ℕ) : System Service Act Event := ⟨Init, step w⟩

end Service

end UvWrapper
