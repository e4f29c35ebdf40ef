import UvWrapper.Libuv
import UvWrapper.Lib.System
import UvWrapper.Lib.Memory
import UvWrapper.Lib.OrderedMap
import Mathlib.Data.Int.Order.Basic

/-! # The reconnecting client

The class `uvcpp`: one tcp handle, a map of work events that callers fill and the async
callback drains, and one flat send buffer. The labels of a step resolve what the caller
passes and what libuv and the allocator answer.
-/

namespace UvWrapper

open Function Memory

/-- `DEFAULT_BUFFER_LEN` and `BUFFER_INCREASE_FACTOR` of the client. -/
def clientBufferLen : ℕ := 1024

def bufferIncreaseFactor : ℕ := 2

inductive EventType | send | closeConn | stopLoop | null
  deriving DecidableEq, Repr

def highKey : ℤ := 0

def mediumKey : ℤ := 1

/-- `std::map<int, st_event>`; an `st_event` has no field but `ev`. -/
abbrev Works := Std.TreeMap ℤ EventType

/-- The `int` key made of a map's size. -/
def sizeKey (w : Works) : ℤ := (w.size : ℤ).bmod (2 ^ 32)

inductive AsyncState | raw | opened | closing | freed
  deriving DecidableEq, Repr

/-- What a caller's thread is doing: nothing; `send` between its two locks; `send`,
`close` or `stop` between the insertion of its event and `uv_async_send`. -/
inductive Caller
  | idle
  | appended
  | inserted (ev : EventType)
  deriving DecidableEq, Repr

/-- Where the loop thread stands: not started; in `uv_run` between two callbacks; in the
async callback before the swap; in its loop over the rest of a batch; gone. -/
inductive LoopPoint
  | down
  | polling
  | entered
  | batch (rest : List EventType)
  | left
  deriving DecidableEq, Repr

/-- The fields of `uvcpp`, and what libuv holds of it: the state of the two handles,
the flag of `uv_stop`, the pending signal of the async handle and whether the `data`
fields of `_tcp` and `_conn` have been assigned. `tcpHandle` says that `_tcpHandle` is not
null, since it is never given another value than the address of `_tcp`; `sendBufLive`
that `_sendBuf` addresses an allocated block. -/
structure Uvcpp where
  works : Works
  exStopLoop : Bool
  statusNormal : Bool
  autoReconnect : Bool
  addr : Option Sockaddr
  tcpHandle : Bool
  sendBuf : Block
  sendBufLive : Bool
  sendLen : ℕ
  sendOffset : ℕ
  tcp : TcpState
  tcpData : Bool
  connData : Bool
  async : AsyncState
  asyncSignal : Bool
  stopFlag : Bool
  point : LoopPoint
  caller : ℕ → Caller

namespace Uvcpp

/-- What becomes visible of a client: calls of libuv with the state of the handle they
are given, calls of its own functions, and casts of a `data` field. -/
inductive Event
  | appended (buf : List UInt8) (fits : Bool)
  | inserted (ev : EventType)
  | tryWrite (handle : Bool) (st : TcpState) (bytes : List UInt8) (n : ℤ)
  | innerClose
  | innerStop
  | tcpInit (st : TcpState)
  | tcpConnect (addr : Option Sockaddr)
  | connectCb (status : ℤ)
  | readStart
  | readStop
  | readcb (nread : ℤ)
  | uvClose (handle : Bool) (st : TcpState)
  | castConn (assigned : Bool)
  | castTcp (assigned : Bool)
  deriving DecidableEq

def create (blk : Block) : Uvcpp where
  works := ∅
  exStopLoop := false
  statusNormal := false
  autoReconnect := true
  addr := none
  tcpHandle := false
  sendBuf := blk
  sendBufLive := true
  sendLen := clientBufferLen
  sendOffset := 0
  tcp := .raw
  tcpData := false
  connData := false
  async := .raw
  asyncSignal := false
  stopFlag := false
  point := .down
  caller _ := .idle

/-- `connect()`; `err` is what `uv_tcp_connect` returns, and no callback follows an
error. -/
def connect (s : Uvcpp) (err : ℤ) : Uvcpp × List Event :=
  ({ s with connData := true, tcp := if err = 0 then .connecting else .inited },
    [.tcpInit s.tcp, .tcpConnect s.addr])

def innerClose (s : Uvcpp) : Uvcpp × List Event :=
  if s.statusNormal = false then (s, [.innerClose])
  else
    ({ s with
        statusNormal := false
        tcpData := s.tcpHandle || s.tcpData
        tcp := if s.tcpHandle then .closing else s.tcp },
      [.innerClose, .uvClose s.tcpHandle s.tcp])

def asyncDeinit (s : Uvcpp) : Uvcpp :=
  if s.async = .freed then s else { s with async := .closing }

def innerStop (s : Uvcpp) : Uvcpp × List Event :=
  let (s₁, es) := s.innerClose
  ({ s₁.asyncDeinit with stopFlag := true }, .innerStop :: es)

/-- `allocSendBuf`. The result of `realloc` is tested and dropped, so `_sendBuf` keeps
its value also where the block has moved. -/
def allocSendBuf (s : Uvcpp) (needSize : ℕ) (re ma : Answer) : Uvcpp :=
  let newSize := uint (uint (s.sendOffset + needSize) * bufferIncreaseFactor)
  match realloc re (some s.sendBuf) newSize with
  | some blk =>
    if blk.addr = s.sendBuf.addr then { s with sendBuf := blk, sendLen := newSize }
    else { s with sendBufLive := false, sendLen := newSize }
  | none =>
    match malloc ma newSize with
    | some tmp =>
      { s with
        sendBuf := { tmp with
          bytes := memcpy tmp.bytes 0 (s.sendBuf.bytes.take s.sendOffset) }
        sendBufLive := true
        sendLen := newSize }
    | none => { s with sendBufLive := false, sendLen := newSize }

/-- The first block of `send`, under `_sendBufLock`. -/
def append (s : Uvcpp) (buf : List UInt8) (re ma : Answer) : Uvcpp × List Event :=
  let s₁ :=
    if s.sendLen < uint (buf.length + s.sendOffset) then
      s.allocSendBuf (uintSub (uintSub s.sendLen buf.length) s.sendOffset) re ma
    else s
  ({ s₁ with
      sendBuf := { s₁.sendBuf with bytes := memcpy s₁.sendBuf.bytes s₁.sendOffset buf }
      sendOffset := uint (s₁.sendOffset + buf.length) },
    [.appended buf
      (s₁.sendBufLive && decide (s₁.sendOffset + buf.length ≤ s₁.sendBuf.bytes.length))])

/-- `write`; `n` is what `uv_try_write` returns. -/
def write (s : Uvcpp) (n : ℤ) : Uvcpp × List Event :=
  if s.sendOffset = 0 then (s, [])
  else
    let es := [.tryWrite s.tcpHandle s.tcp (s.sendBuf.bytes.take s.sendOffset) n]
    if 0 < n then
      ({ s with
          sendBuf := { s.sendBuf with
            bytes := memmove s.sendBuf.bytes n.toNat (s.sendOffset - n.toNat) }
          sendOffset := s.sendOffset - n.toNat }, es)
    else (s, es)

/-- One event of the batch: only `EV_SEND` lets the async callback go on. -/
def process (s : Uvcpp) (ev : EventType) (rest : List EventType) (n : ℤ) :
    Uvcpp × List Event :=
  match ev with
  | .send => { s with point := .batch rest }.write n
  | .closeConn => { s with point := .polling }.innerClose
  | .stopLoop => { s with point := .polling }.innerStop
  | .null => ({ s with point := .batch rest }, [])

def connected (s : Uvcpp) (status : ℤ) : Uvcpp × List Event :=
  if status = 0 then
    ({ s with tcpHandle := true, tcp := .connected, statusNormal := true },
      [.castConn s.connData, .connectCb status, .readStart])
  else
    let (s₁, es) := { s with tcpHandle := true, tcp := .refused }.innerClose
    (s₁, [.castConn s.connData, .connectCb status] ++ es)

def readDone (s : Uvcpp) (nread : ℤ) : Uvcpp × List Event :=
  if nread < 0 then
    let (s₁, es) := s.innerClose
    (s₁, [.castTcp s.tcpData, .readStop] ++ es)
  else if 0 < nread then (s, [.castTcp s.tcpData, .readcb nread])
  else (s, [.castTcp s.tcpData])

def closed (s : Uvcpp) (err : ℤ) : Uvcpp × List Event :=
  let s₁ := { s with tcp := .closed }
  if s.tcpHandle then
    let s₂ := { s₁ with tcpHandle := false }
    if s.autoReconnect && !s.exStopLoop then
      let (s₃, es) := s₂.connect err
      (s₃, .castTcp s.tcpData :: es)
    else (s₂, [.castTcp s.tcpData])
  else (s₁, [.castTcp s.tcpData])

/-- The steps of a client: what its user does before `run`; what callers do from any
thread, the reading callback included; what the loop thread does. -/
inductive Act
  | connect (host : String) (port : ℕ) (err : ℤ)
  | run
  | setAutoReconnect (b : Bool)
  | append (t : ℕ) (buf : List UInt8) (re ma : Answer)
  | insert (t : ℕ)
  | close (t : ℕ)
  | stop (t : ℕ)
  | asyncSend (t : ℕ)
  | asyncEnter
  | swap
  | process (n : ℤ)
  | asyncReturn
  | connectCb (status : ℤ)
  | readCb (nread : ℤ)
  | closeCb (err : ℤ)
  | asyncCloseCb
  | leave

/-- Insert an event under `_workLock`, on behalf of thread `t`. -/
def enqueue (s : Uvcpp) (t : ℕ) (key : ℤ) (ev : EventType) : Uvcpp × List Event :=
  ({ s with
      works := s.works.insertIfNew key ev
      caller := update s.caller t (.inserted ev) }, [.inserted ev])

/-- `uv_try_write` never reports more than it was given. Callers start after `run`,
which makes the async handle; libuv's callbacks run only between two others. -/
def step (s : Uvcpp) : Act → Option (Uvcpp × List Event)
  | .connect host port err =>
    if s.point = .down then some ({ s with addr := some (host, port) }.connect err) else none
  | .run =>
    if s.point = .down then some ({ s with async := .opened, point := .polling }, [])
    else none
  | .setAutoReconnect b => some ({ s with autoReconnect := b }, [])
  | .append t buf re ma =>
    if s.point ≠ .down ∧ s.caller t = .idle ∧ buf.length < 2 ^ 32 then
      let (s₁, es) := s.append buf re ma
      some ({ s₁ with caller := update s.caller t .appended }, es)
    else none
  | .insert t =>
    if s.caller t = .appended then some (s.enqueue t (sizeKey s.works) .send) else none
  | .close t =>
    if s.point ≠ .down ∧ s.caller t = .idle then some (s.enqueue t mediumKey .closeConn)
    else none
  | .stop t =>
    if s.point ≠ .down ∧ s.caller t = .idle then some (s.enqueue t highKey .stopLoop)
    else none
  | .asyncSend t =>
    match s.caller t with
    | .inserted _ => some ({ s with asyncSignal := true, caller := update s.caller t .idle }, [])
    | _ => none
  | .asyncEnter =>
    if s.point = .polling ∧ s.async = .opened ∧ s.asyncSignal = true then
      some ({ s with asyncSignal := false, point := .entered }, [])
    else none
  | .swap =>
    if s.point = .entered then
      some ({ s with works := ∅, point := .batch (OrderedMap.inOrder s.works) }, [])
    else none
  | .process n =>
    match s.point with
    | .batch (ev :: rest) =>
      if n ≤ s.sendOffset then some (s.process ev rest n) else none
    | _ => none
  | .asyncReturn =>
    if s.point = .batch [] then some ({ s with point := .polling }, []) else none
  | .connectCb status =>
    if s.point = .polling ∧ s.tcp = .connecting then some (s.connected status) else none
  | .readCb nread =>
    if s.point = .polling ∧ s.tcp = .connected then some (s.readDone nread) else none
  | .closeCb err =>
    if s.point = .polling ∧ s.tcp = .closing then some (s.closed err) else none
  | .asyncCloseCb =>
    if s.point = .polling ∧ s.async = .closing then some ({ s with async := .freed }, [])
    else none
  | .leave =>
    if s.point = .polling ∧ s.stopFlag = true then some ({ s with point := .left }, [])
    else none

def Init (s : Uvcpp) : Prop := ∃ blk : Block, blk.bytes.length = clientBufferLen ∧ s = create blk

def client : Transition.System Uvcpp Act Event := ⟨Init, step⟩

end Uvcpp

end UvWrapper
