import UvWrapper.Libuv
import UvWrapper.Loop.Threads

/-! # The server

The classes `uvaccept` and `TcpServer` over their request loop. `tcpListen` starts the loop
where it is not running, hands what it was given to the acceptor and asks the acceptor to
listen; the socket itself is made on the loop thread. Tcp handles are named by the order of
their creation.
-/

namespace UvWrapper

open Function Transition

/-- The fields of `uvaccept`. `ploop` says that `m_ploop` is set; a callback is named by a
number, and an empty one is `none`. -/
structure Uvaccept where
  ploop : Bool
  connectcb : Option ℕ
  server : Option ℕ
  addr : Option Sockaddr

namespace Uvaccept

/-- The constructor. `m_addr` is not initialised. -/
def create : Uvaccept where
  ploop := false
  connectcb := none
  server := none
  addr := none

def registerAccept (s : Uvaccept) : Uvaccept := { s with ploop := true }

/-- `iErr` is what `uv_ip4_addr` returns, which must be 0. -/
def setIPAndPort (s : Uvaccept) (phost : String) (port : ℕ) (iErr : ℤ) : Option Uvaccept :=
  if iErr = 0 then some { s with addr := some (phost, port) } else none

def setNewConnectCallback (s : Uvaccept) (cocb : Option ℕ) : Uvaccept :=
  { s with connectcb := cocb }

end Uvaccept

namespace TcpServer

/-- The callbacks that the handles of the loop carry: `ServerListenStart`, bound to the
acceptor, and those of the other users of the loop. -/
inductive Req
  | serverListenStart
  | other (eEventType : EType) (id : ℕ)
  deriving DecidableEq

def Req.eType : Req → EType
  | .serverListenStart => .tcpListen
  | .other eEventType _ => eEventType

inductive Api
  | tcpListen (ip : String) (port : ℕ) (cb : Option ℕ)
  | listen
  | other (eEventType : EType) (id : ℕ)
  deriving DecidableEq

/-- What a thread is doing: nothing; `tcpListen` that has found the loop not running; in the
`run` of its `tcpRun`; before it stores its arguments, before each of the three functions of
the acceptor, and in `listen`; `listen` itself; another user's `AddReq`. -/
inductive Caller
  | idle
  | starting (ip : String) (port : ℕ) (cb : Option ℕ)
  | launched (ip : String) (port : ℕ) (cb : Option ℕ)
  | storing (ip : String) (port : ℕ) (cb : Option ℕ)
  | registering (port : ℕ) (cb : Option ℕ)
  | addressing (port : ℕ) (cb : Option ℕ)
  | handling (cb : Option ℕ)
  | serving
  | listening
  | adding (eEventType : EType) (id : ℕ)
  deriving DecidableEq

def Caller.request : Caller → Option Req
  | .serving | .listening => some .serverListenStart
  | .adding eEventType id => some (.other eEventType id)
  | _ => none

/-- What the function returns; `tcpListen` does not look at the result of `listen`. -/
def Caller.result : Caller → LoopErr → Bool
  | .serving, _ => true
  | _, err => err == .noErr

end TcpServer

/-- The fields of `TcpServer`, its loop and its acceptor. Of libuv: the tcp handles that
listen. `body` is the request whose callback the loop thread has entered and not yet
executed. -/
structure TcpServer where
  threads : Uvloop.Threads TcpServer.Req
  listner : Uvaccept
  ip : String
  tcps : ℕ
  listens : ℕ → Bool
  call : ℕ → TcpServer.Caller
  body : Option TcpServer.Req
  crashed : Bool

namespace TcpServer

inductive Event
  | loop (e : Uvloop.Event Req)
  | returned (t : ℕ) (ok : Bool)
  | freed (h : ℕ)
  | tcpInit (h : ℕ)
  | tcpBind (h : ℕ) (addr : Option Sockaddr)
  | tcpListen (h : ℕ)
  | newConnection (cb h : ℕ)
  | fault
  deriving DecidableEq

def create (garbage : ℕ → EType) : TcpServer where
  threads := ⟨Uvloop.create garbage, fun _ => .idle⟩
  listner := .create
  ip := ""
  tcps := 0
  listens _ := false
  call _ := .idle
  body := none
  crashed := false

def crash (s : TcpServer) (es : List Event) : TcpServer × List Event :=
  ({ s with crashed := true }, es)

/-- The part of the public functions before `tcpRun`, before the first assignment or before
`AddReq`. -/
def begin (s : TcpServer) : Api → Caller
  | .tcpListen ip port cb =>
    if s.threads.loop.bRunning then .storing ip port cb else .starting ip port cb
  | .listen => .listening
  | .other eEventType id => .adding eEventType id

/-- The next statement of `tcpListen` that writes; `iErr` is what `uv_ip4_addr` returns. The
address is the one in `m_ip`, whoever has stored it. `m_addr` is written in one step. -/
def configure (s : TcpServer) (t : ℕ) (iErr : ℤ) : Option (TcpServer × List Event) :=
  match s.call t with
  | .storing ip port cb => some ({ s with ip, call := update s.call t (.registering port cb) }, [])
  | .registering port cb => some ({ s with
      listner := s.listner.registerAccept
      call := update s.call t (.addressing port cb) }, [])
  | .addressing port cb =>
    match s.listner.setIPAndPort s.ip port iErr with
    | some listner => some ({ s with listner, call := update s.call t (.handling cb) }, [])
    | none => some (s.crash [.fault])
  | .handling cb => some ({ s with
      listner := s.listner.setNewConnectCallback cb
      call := update s.call t .serving }, [])
  | _ => none

/-- `ServerListenStart`; `ini`, `bnd` and `lis` are what `uv_tcp_init`, `uv_tcp_bind` and
`uv_listen` return, of which the last is not looked at. The handle that `m_pServer` pointed to
is freed, and its memory is not used again. -/
def serverListenStart (s : TcpServer) (ini bnd lis : ℤ) : TcpServer × List Event :=
  let h := s.tcps
  let s₁ := { s with tcps := h + 1, listner := { s.listner with server := some h } }
  let es := (s.listner.server.map Event.freed).toList ++ [.tcpInit h]
  if ini ≠ 0 then s₁.crash (es ++ [.fault])
  else if bnd ≠ 0 then s₁.crash (es ++ [.tcpBind h s.listner.addr, .fault])
  else ({ s₁ with listens := update s.listens h (decide (lis = 0)) },
    es ++ [.tcpBind h s.listner.addr, .tcpListen h])

/-- The connection callback; `ini` and `acc` are what `uv_tcp_init` and `uv_accept` return.
An empty `m_pConnectcb` throws. -/
def connected (s : TcpServer) (status ini acc : ℤ) : TcpServer × List Event :=
  if status < 0 then (s, [])
  else
    let h := s.tcps
    let s₁ := { s with tcps := h + 1 }
    if ini ≠ 0 then s₁.crash [.tcpInit h, .fault]
    else if acc ≠ 0 then (s₁, [.tcpInit h])
    else
      match s.listner.connectcb with
      | none => s₁.crash [.tcpInit h, .fault]
      | some cb => (s₁, [.tcpInit h, .newConnection cb h])

def perform (s : TcpServer) (req : Req) (ini bnd lis : ℤ) : TcpServer × List Event :=
  match req with
  | .serverListenStart => s.serverListenStart ini bnd lis
  | .other _ _ => (s, [])

/-- The steps: the acceptor's public functions; the server's and the other calls of `AddReq`
on any thread `t`, in the pieces in which other threads see them; the loop thread and the
connection callback. -/
inductive Act
  | registerAccept
  | setIPAndPort (phost : String) (port : ℕ) (iErr : ℤ)
  | setNewConnectCallback (cocb : Option ℕ)
  | run (t : ℕ)
  | setRunning (t : ℕ)
  | stop (t : ℕ)
  | request (t : ℕ) (f : Api)
  | configure (t : ℕ) (iErr : ℤ)
  | addReq (t : ℕ)
  | lock (t : ℕ)
  | turn (a : Uvloop.Turn)
  | perform (ini bnd lis : ℤ)
  | connectionCb (h : ℕ) (status ini acc : ℤ)

def Idle (s : TcpServer) (t : ℕ) : Prop := s.call t = .idle ∧ s.threads.call t = .idle

instance (s : TcpServer) (t : ℕ) : Decidable (s.Idle t) := inferInstanceAs (Decidable (_ ∧ _))

def loopStep (s : TcpServer) (a : Uvloop.Act Req) : Option (TcpServer × List Event) :=
  (s.threads.step a).map fun p => ({ s with threads := p.1 }, p.2.map .loop)

/-- `run`, for `tcpRun` and as `tcpListen` calls it, where it tests `m_bRunning` again. -/
def launch (s : TcpServer) (t : ℕ) : Option (TcpServer × List Event) :=
  match s.call t with
  | .idle => s.loopStep (.run t)
  | .starting ip port cb =>
    if s.threads.loop.bRunning then
      some ({ s with call := update s.call t (.storing ip port cb) }, [])
    else
      (s.loopStep (.run t)).map fun p =>
        ({ p.1 with call := update s.call t (.launched ip port cb) }, p.2)
  | _ => none

def Caller.ran : Caller → Caller
  | .launched ip port cb => .storing ip port cb
  | c => c

def finish (s : TcpServer) (t : ℕ) (err : LoopErr) (p : TcpServer × List Event) :
    TcpServer × List Event :=
  match (s.call t).request with
  | some _ =>
    ({ p.1 with call := update s.call t .idle }, p.2 ++ [.returned t ((s.call t).result err)])
  | none => p

def nextBody (s : TcpServer) (a : Uvloop.Turn) (position : Position) : Option Req :=
  match a, position with
  | .fire h, .running _ => (s.threads.loop.async h).tcb
  | _, _ => none

/-- Between two of these steps other threads may run. A connection comes in where the loop
thread is between two callbacks. -/
def step (s : TcpServer) (a : Act) : Option (TcpServer × List Event) :=
  if s.crashed then none
  else
    match a with
    | .registerAccept => some ({ s with listner := s.listner.registerAccept }, [])
    | .setIPAndPort phost port iErr =>
      match s.listner.setIPAndPort phost port iErr with
      | some listner => some ({ s with listner }, [])
      | none => some (s.crash [.fault])
    | .setNewConnectCallback cocb =>
      some ({ s with listner := s.listner.setNewConnectCallback cocb }, [])
    | .run t => s.launch t
    | .setRunning t =>
      (s.loopStep (.setRunning t)).map fun p =>
        ({ p.1 with call := update s.call t (s.call t).ran }, p.2)
    | .stop t => if s.Idle t then s.loopStep (.call t .stop) else none
    | .request t f =>
      if s.Idle t then some ({ s with call := update s.call t (s.begin f) }, []) else none
    | .configure t iErr => s.configure t iErr
    | .addReq t =>
      match (s.call t).request with
      | some req =>
        if req = .serverListenStart ∧ s.listner.ploop = false then some (s.crash [.fault])
        else
          (s.loopStep (.call t (.addReq req.eType (some req)))).map fun p =>
            if s.threads.loop.bRunning then p else s.finish t .stop p
      | none => none
    | .lock t =>
      (s.loopStep (.lock t)).map (s.finish t (if s.threads.loop.dAsync = [] then .busy else .noErr))
    | .turn a =>
      if s.body = none then
        (s.loopStep (.turn a)).map fun p =>
          ({ p.1 with body := s.nextBody a p.1.threads.loop.position }, p.2)
      else none
    | .perform ini bnd lis =>
      match s.body with
      | some req => some ({ s with body := none }.perform req ini bnd lis)
      | none => none
    | .connectionCb h status ini acc =>
      if s.threads.loop.position = .polling ∧ s.listens h = true then
        some (s.connected status ini acc)
      else none

def Init (s : TcpServer) : Prop := ∃ garbage, s = create garbage

def serving : System TcpServer Act Event := ⟨Init, step⟩

end TcpServer

end UvWrapper
