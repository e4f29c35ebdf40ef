import UvWrapper.Libuv
import UvWrapper.Util.SafeBuffer
import UvWrapper.Loop.Threads

/-! # The connection

The class `uvconnect` over its request loop: what its public functions do on any thread,
what its private functions do on the loop thread, and the callbacks it gives to libuv.
Send records are named by the order of their creation, and so are tcp handles. Null
pointers, failed assertions and dereferences of `end()` end the program.
-/

namespace UvWrapper

open Function Memory

inductive EvType | connect | read | write | close
  deriving DecidableEq, Repr

/-- `stSend` without its `uv_write_t`, whose address names the record. -/
structure StSend where
  tsafebuf : Safebuffer
  tbuf : UvBuf

/-- The callbacks that the handles of the loop carry: the private functions of this
connection, bound to it, and those of the other users of the loop. -/
inductive Req
  | connect | closeConnect | readStart | readStop
  | tcpWrite (pNewSend : ℕ)
  | other (eEventType : EType) (id : ℕ)
  deriving DecidableEq

/-- A private function of this connection. -/
def Req.own : Req → Bool
  | .other _ _ => false
  | _ => true

def Req.eType : Req → EType
  | .connect => .tcpConnect
  | .closeConnect => .tcpClose
  | .readStart => .tcpReadStart
  | .readStop => .tcpReadStop
  | .tcpWrite _ => .tcpWrite
  | .other eEventType _ => eEventType

/-- The public functions that add one request, and the other users of the loop. -/
inductive Api
  | connectToServer | closeConnection | reconnnect | startReadData | stopReadData
  | other (eEventType : EType) (id : ℕ)
  deriving DecidableEq

/-- What a thread is doing before `AddReq`: nothing; `wirteData` past its tests; past its
lock with the record not yet filled; any function about to call `AddReq`. -/
inductive Writer
  | idle
  | checked (buf : List UInt8)
  | obtained (r : ℕ) (buf : List UInt8)
  | requesting (req : Req)
  deriving DecidableEq

/-- The fields of `uvconnect` and the loop it is registered with. `ploop` and `handler`
say that `m_ploop` and `m_EvnentHandler` are set. Of libuv: the `uv_buf_t` of each write
in progress, the states of the tcp handles and which are being read. `body` is the request
whose callback the loop thread has entered and not yet executed. -/
structure Uvconnect where
  threads : Uvloop.Threads Req
  bConnectSuccess : Bool
  bReconect : Bool
  ploop : Bool
  handler : Bool
  addr : Option Sockaddr
  stream : Option ℕ
  dSend : List ℕ
  mapSend : Finset ℕ
  send : ℕ → StSend
  created : ℕ
  writing : ℕ → Option UvBuf
  tcps : ℕ
  tcp : ℕ → TcpState
  reading : ℕ → Bool
  call : ℕ → Writer
  body : Option Req
  crashed : Bool

namespace Uvconnect

inductive Event
  | loop (e : Uvloop.Event Req)
  | rejected (t : ℕ)
  | obtained (t r : ℕ) (buf : List UInt8)
  | filled (t r : ℕ) (ok : Bool)
  | returned (t : ℕ) (req : Req) (err : LoopErr)
  | uvWrite (r h : ℕ) (st : TcpState) (bytes : List UInt8)
  | writeCb (r : ℕ) (status : ℤ)
  | derefEnd (r : ℕ)
  | tcpInit (h : ℕ)
  | tcpConnect (h : ℕ) (addr : Option Sockaddr)
  | connectCb (h : ℕ) (status : ℤ)
  | uvClose (h : ℕ) (st : TcpState)
  | readStart (h : ℕ) (st : TcpState)
  | readStop (h : ℕ)
  | event (ev : EvType) (arg : ℤ)
  | fault
  deriving DecidableEq

def create (garbage : ℕ → EType) (send : ℕ → StSend) : Uvconnect where
  threads := ⟨Uvloop.create garbage, fun _ => .idle⟩
  bConnectSuccess := false
  bReconect := false
  ploop := false
  handler := false
  addr := none
  stream := none
  dSend := []
  mapSend := ∅
  send := send
  created := 0
  writing _ := none
  tcps := 0
  tcp _ := .raw
  reading _ := false
  call _ := .idle
  body := none
  crashed := false

def crash (s : Uvconnect) (es : List Event) : Uvconnect × List Event :=
  ({ s with crashed := true }, es)

/-- A call of `m_EvnentHandler`, where there is one. -/
def notify (s : Uvconnect) (ev : EvType) (arg : ℤ) : List Event :=
  if s.handler then [.event ev arg] else []

/-- The records: free in `m_dSend`, in use in `m_mapSend`. -/
def sendPool (s : Uvconnect) : Recycling.Pool ℕ := ⟨s.dSend, s.mapSend⟩

/-- The locked block of `wirteData`, with the block `malloc` returns for a new record;
`tbuf` of a new record is not initialised and keeps what the memory held. -/
def takeSend (s : Uvconnect) (ma : Answer) : Option (ℕ × Uvconnect) :=
  match s.dSend with
  | [] =>
    (Safebuffer.create ma).map fun b => (s.created,
      { s with
        send := update s.send s.created { s.send s.created with tsafebuf := b }
        created := s.created + 1
        mapSend := insert s.created s.mapSend })
  | r :: rest => some (r,
      { s with
        dSend := rest
        send := update s.send r { s.send r with tsafebuf := (s.send r).tsafebuf.clearMem }
        mapSend := insert r s.mapSend })

/-- The part before `AddReq` of the public functions; `none` where they return false. -/
def begin (s : Uvconnect) : Api → Uvconnect × Option Req
  | .connectToServer => (s, some .connect)
  | .closeConnection => (s, some .closeConnect)
  | .reconnnect => ({ s with bReconect := true }, some .closeConnect)
  | .startReadData => (s, if s.bConnectSuccess then some .readStart else none)
  | .stopReadData => (s, some .readStop)
  | .other eEventType id => (s, some (.other eEventType id))

/-- `Connect`; `err` is what `uv_tcp_connect` returns. The handle is new memory. The resets of
`m_pConn` and `m_ptcp` free what these pointed to; nothing here depends on that, and `resets`
keeps the account of the handles. -/
def connect (s : Uvconnect) (err : ℤ) : Uvconnect × List Event :=
  ({ s with
      tcps := s.tcps + 1
      tcp := update s.tcp s.tcps (if err = 0 then .connecting else .inited) },
    [.tcpInit s.tcps, .tcpConnect s.tcps s.addr])

def closeConnect (s : Uvconnect) : Uvconnect × List Event :=
  match s.stream with
  | none => s.crash [.fault]
  | some h =>
    ({ s with bConnectSuccess := false, tcp := update s.tcp h .closing }, [.uvClose h (s.tcp h)])

/-- `ReadStart`; libuv does not read from a handle that is not connected. -/
def readStart (s : Uvconnect) : Uvconnect × List Event :=
  if s.bConnectSuccess = false then (s, [])
  else
    match s.stream with
    | none => s.crash [.fault]
    | some h =>
      ({ s with reading := update s.reading h (decide (s.tcp h = .connected)) },
        [.readStart h (s.tcp h)])

def readStop (s : Uvconnect) : Uvconnect × List Event :=
  match s.stream with
  | none => s.crash [.fault]
  | some h => ({ s with reading := update s.reading h false }, [.readStop h])

/-- The `uv_buf_t` that `tcpWrite` makes of a record. -/
def sendBuf (st : StSend) : UvBuf :=
  uvBufInit (st.tsafebuf.pbuffer.map Block.addr) st.tsafebuf.datalen

/-- `tcpWrite`; `err` is what `uv_write` returns. -/
def tcpWrite (s : Uvconnect) (r : ℕ) (err : ℤ) : Uvconnect × List Event :=
  if s.bConnectSuccess = false then (s, [])
  else
    let buf := sendBuf (s.send r)
    let s₁ := { s with send := update s.send r { s.send r with tbuf := buf } }
    match s.stream with
    | none => s₁.crash [.fault]
    | some h =>
      let es := [.uvWrite r h (s.tcp h) ((s.send r).tsafebuf.covered buf)]
      if err = 0 then ({ s₁ with writing := update s.writing r (some buf) }, es)
      else s₁.crash (es ++ [.fault])

def perform (s : Uvconnect) (req : Req) (err : ℤ) : Uvconnect × List Event :=
  match req with
  | .connect => s.connect err
  | .closeConnect => s.closeConnect
  | .readStart => s.readStart
  | .readStop => s.readStop
  | .tcpWrite r => s.tcpWrite r err
  | .other _ _ => (s, [])

/-- The connect callback. The reset of `m_pStream` frees the handle it pointed to, which
`resets` accounts for. -/
def connected (s : Uvconnect) (h : ℕ) (status : ℤ) : Uvconnect × List Event :=
  ({ s with
      stream := some h
      tcp := update s.tcp h (if status = 0 then .connected else .refused)
      bConnectSuccess := decide (status = 0) },
    .connectCb h status :: s.notify .connect status)

def readDone (s : Uvconnect) (nread : ℤ) : Uvconnect × List Event :=
  if 0 ≤ nread then (s, s.notify .read nread)
  else
    match s.stream with
    | none => s.crash [.fault]
    | some h =>
      ({ s with reading := update s.reading h false, bConnectSuccess := false },
        .readStop h :: s.notify .close 0)

def written (s : Uvconnect) (r : ℕ) (status : ℤ) : Uvconnect × List Event :=
  if r ∈ s.mapSend then
    ({ s with
        writing := update s.writing r none
        dSend := s.dSend ++ [r]
        mapSend := s.mapSend.erase r },
      .writeCb r status :: s.notify .write status)
  else s.crash [.writeCb r status, .derefEnd r]

/-- `ConnectToServer` on the loop thread, where nothing runs between the test of
`m_bRunning` and the lock that could change the former. -/
def connectToServer (s : Uvconnect) : Uvconnect × List Event :=
  if s.ploop = false then s.crash [.fault]
  else if s.threads.loop.bRunning then
    let (loop, es) := s.threads.loop.submit (.addReq .tcpConnect (some .connect))
    ({ s with threads := { s.threads with loop } }, es.map .loop)
  else (s, [.loop (.refused .stop)])

def closed (s : Uvconnect) (h : ℕ) : Uvconnect × List Event :=
  let s₁ := { s with tcp := update s.tcp h .closed }
  if s.bReconect then { s₁ with bReconect := false }.connectToServer else (s₁, [])

/-- The steps: configuration; the public functions on any thread `t`, in the pieces in
which other threads see them; the loop thread and the callbacks of libuv. -/
inductive Act
  | registerConnect
  | registerloopAndStream
  | setEventHandler (b : Bool)
  | setIPAndAddr (addr : Sockaddr)
  | run (t : ℕ)
  | setRunning (t : ℕ)
  | stop (t : ℕ)
  | wirteData (t : ℕ) (buf : List UInt8)
  | takeSend (t : ℕ) (ma : Answer)
  | readmem (t : ℕ) (ma re : Answer)
  | request (t : ℕ) (f : Api)
  | addReq (t : ℕ)
  | lock (t : ℕ)
  | turn (a : Uvloop.Turn)
  | perform (err : ℤ)
  | connectCb (h : ℕ) (status : ℤ)
  | readCb (h : ℕ) (nread : ℤ)
  | writeCb (r : ℕ) (status : ℤ)
  | closeCb (h : ℕ)

def Idle (s : Uvconnect) (t : ℕ) : Prop := s.call t = .idle ∧ s.threads.call t = .idle

instance (s : Uvconnect) (t : ℕ) : Decidable (s.Idle t) := inferInstanceAs (Decidable (_ ∧ _))

def loopStep (s : Uvconnect) (a : Uvloop.Act Req) : Option (Uvconnect × List Event) :=
  (s.threads.step a).map fun p => ({ s with threads := p.1 }, p.2.map .loop)

/-- What `AddReq` reports to the thread that leaves its lock. -/
def lockResult (s : Uvconnect) (t : ℕ) : List Event :=
  match s.threads.call t with
  | .locking (.addReq _ (some req)) =>
    [.returned t req (if s.threads.loop.dAsync = [] then .busy else .noErr)]
  | _ => []

/-- The request whose callback the loop thread enters. -/
def nextBody (s : Uvconnect) (a : Uvloop.Turn) (position : Position) : Option Req :=
  match a, position with
  | .fire h, .running _ => (s.threads.loop.async h).tcb
  | .fire _, _ => none
  | _, _ => s.body

/-- Between two of these steps other threads may run. Callbacks of libuv run where the
loop thread is between two callbacks. -/
def step (w : ℕ) (s : Uvconnect) (a : Act) : Option (Uvconnect × List Event) :=
  if s.crashed then none
  else
    match a with
    | .registerConnect => some ({ s with ploop := true }, [])
    | .registerloopAndStream =>
      some ({ s with
        bConnectSuccess := true
        ploop := true
        stream := some s.tcps
        tcps := s.tcps + 1
        tcp := update s.tcp s.tcps .connected }, [])
    | .setEventHandler b => some ({ s with handler := b }, [])
    | .setIPAndAddr addr => some ({ s with addr := some addr }, [])
    | .run t => if s.Idle t then s.loopStep (.run t) else none
    | .setRunning t => s.loopStep (.setRunning t)
    | .stop t => if s.Idle t then s.loopStep (.call t .stop) else none
    | .wirteData t buf =>
      if s.Idle t ∧ buf.length < 2 ^ w then
        if s.bConnectSuccess && s.ploop then
          some ({ s with call := update s.call t (.checked buf) }, [])
        else some (s, [.rejected t])
      else none
    | .takeSend t ma =>
      match s.call t with
      | .checked buf =>
        match s.takeSend ma with
        | some (r, s₁) =>
          some ({ s₁ with call := update s.call t (.obtained r buf) }, [.obtained t r buf])
        | none => some (s.crash [.fault])
      | _ => none
    | .readmem t ma re =>
      match s.call t with
      | .obtained r buf =>
        match (s.send r).tsafebuf.readmem w buf ma re with
        | some (b, ok) =>
          some ({ s with
            send := update s.send r { s.send r with tsafebuf := b }
            call := update s.call t (.requesting (.tcpWrite r)) }, [.filled t r ok])
        | none => some (s.crash [.fault])
      | _ => none
    | .request t f =>
      if s.Idle t then
        match s.begin f with
        | (s₁, some req) => some ({ s₁ with call := update s.call t (.requesting req) }, [])
        | (s₁, none) => some (s₁, [.rejected t])
      else none
    | .addReq t =>
      match s.call t with
      | .requesting req =>
        if req.own && !s.ploop then some (s.crash [.fault])
        else
          (s.loopStep (.call t (.addReq req.eType (some req)))).map fun p =>
            ({ p.1 with call := update s.call t .idle },
              p.2 ++ if s.threads.loop.bRunning then [] else [.returned t req .stop])
      | _ => none
    | .lock t => (s.loopStep (.lock t)).map fun p => (p.1, p.2 ++ s.lockResult t)
    | .turn a =>
      if a = .tcbReturn ∧ s.body.isSome then none
      else
        (s.loopStep (.turn a)).map fun p =>
          ({ p.1 with body := s.nextBody a p.1.threads.loop.position }, p.2)
    | .perform err =>
      match s.body with
      | some req => some ({ s with body := none }.perform req err)
      | none => none
    | .connectCb h status =>
      if s.threads.loop.position = .polling ∧ s.tcp h = .connecting then
        some (s.connected h status)
      else none
    | .readCb h nread =>
      if s.threads.loop.position = .polling ∧ s.tcp h = .connected ∧ s.reading h = true then
        some (s.readDone nread)
      else none
    | .writeCb r status =>
      if s.threads.loop.position = .polling ∧ (s.writing r).isSome then
        some (s.written r status)
      else none
    | .closeCb h =>
      if s.threads.loop.position = .polling ∧ s.tcp h = .closing then some (s.closed h)
      else none

def Init (s : Uvconnect) : Prop := ∃ garbage send, s = create garbage send

/-- The connection with its users, its loop and libuv; `w` is the width of
`unsigned long`. -/
def connection (w : ℕ) : Transition.System Uvconnect Act Event := ⟨Init, step w⟩

end Uvconnect

end UvWrapper
