import UvWrapper.Lib.Pool
import UvWrapper.Lib.System
import UvWrapper.Util.SafeBuffer
import Mathlib.Logic.Function.Basic

/-! # The network library

The class `netlibuv` of `netlib.h`, of which there is one instance: sends from any thread
and through async handles, their callbacks on the loop thread, and the life of the one
socket. Write records are named by the order of their creation, async handles by their
number. A failed `assert` ends the program.
-/

namespace UvWrapper

open Function Memory Transition

def asyncHandleNum : ℕ := 5

/-- `Sendst` without its `uv_write_t`, whose address names the record. -/
structure Sendst where
  uvBuf : UvBuf
  buffer : Safebuffer

/-- How far a thread is in `net_Send`: outside; before the lock; past it, with a record;
with the record filled. -/
inductive NetSend
  | idle
  | entered (pBuffer : List UInt8)
  | obtained (pNewSend : ℕ) (pBuffer : List UInt8)
  | filled (pNewSend : ℕ)
  deriving DecidableEq

/-- The thread that is in `uv_run`. -/
def loopThread : ℕ := 0

/-- `m_ptcpHandle` is null or points to `m_psocktcp`. `writing` are the buffers that
`uv_write` was given, until the callback; `asyncPending` the handles of which libuv owes a
callback, and `asyncCb` the one whose callback runs, which holds `m_lockAsyncWriteBuffer`;
`connecting` says that libuv has `m_connect`. -/
structure Netlibuv where
  dSend : List ℕ
  mapSend : Finset ℕ
  created : ℕ
  send : ℕ → Sendst
  writing : ℕ → Option UvBuf
  dAsyncSend : List ℕ
  mapAsyncSend : Finset ℕ
  asyncSend : ℕ → Safebuffer
  asyncPending : Finset ℕ
  asyncCb : Option ℕ
  netSend : ℕ → NetSend
  ptcpHandle : Bool
  btcpClosed : Bool
  socktcp : TcpState
  connecting : Bool
  reading : Bool
  down : Bool

namespace Netlibuv

/-- What a run shows. `uvClose` carries whether the handle is one and its state, `tcpInit` and
`tcpConnect` the state of the handle and whether `m_connect` is with libuv. -/
inductive Event
  | asyncAccepted (handle : ℕ) (pBuffer : List UInt8)
  | asyncRefused
  | asyncEntered (handle : ℕ)
  | asyncReturned (handle : ℕ)
  | obtained (thread pNewSend : ℕ) (pBuffer : List UInt8)
  | uvWrite (pNewSend : ℕ) (handle : Bool) (bytes : List UInt8)
  | writeCb (req : ℕ) (found : Bool) (status : ℤ)
  | tcpInit (st : TcpState) (outstanding : Bool)
  | tcpConnect (st : TcpState) (outstanding : Bool)
  | uvClose (handle : Bool) (st : TcpState)
  | netConnect | netReConnect
  | connectCb (status : ℤ)
  | connectCallBack (status : ℤ)
  | readStop
  | readCallback (len : ℤ)
  | closeCb
  | fault
  deriving DecidableEq

def abort (s : Netlibuv) (es : List Event) : Netlibuv × List Event :=
  ({ s with down := true }, es ++ [.fault])

/-! ## Sending -/

/-- `net_AsyncSend`, which holds its lock throughout; with what it returns. -/
def netAsyncSend (w : ℕ) (s : Netlibuv) (pBuffer : List UInt8) (ma re : Answer) :
    Option (Netlibuv × Bool × List Event) :=
  match s.dAsyncSend with
  | [] => some (s, false, [.asyncRefused])
  | i :: rest =>
    ((s.asyncSend i).clearMem.readmem w pBuffer ma re).map fun p =>
      ({ s with
          dAsyncSend := rest
          mapAsyncSend := insert i s.mapAsyncSend
          asyncSend := update s.asyncSend i p.1
          asyncPending := insert i s.asyncPending },
        true, [.asyncAccepted i pBuffer])

/-- `async_cb` up to its call of `net_Send`, whose length is an `unsigned int`. -/
def asyncEnter (s : Netlibuv) (i : ℕ) : Netlibuv × List Event :=
  let s₁ := { s with asyncPending := s.asyncPending.erase i }
  if i ∈ s.mapAsyncSend then
    let b := s.asyncSend i
    ({ s₁ with
        asyncCb := some i
        netSend := update s.netSend loopThread (.entered (b.contents.take (uint b.datalen))) },
      [.asyncEntered i])
  else (s₁, [.asyncEntered i, .asyncReturned i])

/-- The locked block of `net_Send`; `uv_buf` of a new record is not initialised. -/
def takeSend (s : Netlibuv) (ma : Answer) : Option (ℕ × Netlibuv) :=
  match s.dSend with
  | [] =>
    (Safebuffer.create ma).map fun b => (s.created,
      { s with
        send := update s.send s.created { s.send s.created with buffer := b }
        created := s.created + 1
        mapSend := insert s.created s.mapSend })
  | r :: rest => some (r,
      { s with
        dSend := rest
        send := update s.send r { s.send r with buffer := (s.send r).buffer.clearMem }
        mapSend := insert r s.mapSend })

def sendPool (s : Netlibuv) : Recycling.Pool ℕ := ⟨s.dSend, s.mapSend⟩

def asyncPool (s : Netlibuv) : Recycling.Pool ℕ := ⟨s.dAsyncSend, s.mapAsyncSend⟩

def fill (w : ℕ) (s : Netlibuv) (r : ℕ) (pBuffer : List UInt8) (ma re : Answer) :
    Option Netlibuv :=
  ((s.send r).buffer.readmem w pBuffer ma re).map fun p =>
    let filled : Sendst := ⟨uvBufInit (p.1.pbuffer.map Block.addr) p.1.datalen, p.1⟩
    { s with send := update s.send r filled }

/-- `uv_write` of `net_Send` on the thread `t`; `err` is what it returns. -/
def write (s : Netlibuv) (t r : ℕ) (err : ℤ) : Netlibuv × List Event :=
  let es := [.uvWrite r s.ptcpHandle ((s.send r).buffer.covered (s.send r).uvBuf)]
  if s.ptcpHandle = true ∧ err = 0 then
    ({ s with
        writing := update s.writing r (some (s.send r).uvBuf)
        netSend := update s.netSend t .idle }, es)
  else s.abort es

/-- `write_cb`; where the request is not found nothing is done. -/
def writeCb (s : Netlibuv) (r : ℕ) (status : ℤ) : Netlibuv × List Event :=
  let s₁ := { s with writing := update s.writing r none }
  if r ∈ s.mapSend then
    ({ s₁ with dSend := s.dSend ++ [r], mapSend := s.mapSend.erase r },
      [.writeCb r true status])
  else (s₁, [.writeCb r false status])

/-! ## The socket -/

def tcpConnect (s : Netlibuv) (err : ℤ) : Netlibuv × List Event :=
  (if err = 0 then { s with socktcp := .connecting, connecting := true } else s,
    [.tcpConnect s.socktcp s.connecting])

def netConnect (s : Netlibuv) (err : ℤ) : Netlibuv × List Event :=
  let (s₁, es) := s.tcpConnect err
  if err = 0 then (s₁, .netConnect :: es) else s₁.abort (.netConnect :: es)

def netCloseConnection (s : Netlibuv) : Netlibuv × List Event :=
  let es := [.uvClose s.ptcpHandle s.socktcp]
  if s.ptcpHandle then ({ s with socktcp := .closing }, es) else s.abort es

def netReConnect (s : Netlibuv) (err : ℤ) : Netlibuv × List Event :=
  if s.btcpClosed = false then
    let (s₁, es) := s.netCloseConnection
    (s₁, .netReConnect :: es)
  else
    let (s₁, es) := { s with socktcp := .inited }.tcpConnect err
    (s₁, .netReConnect :: .tcpInit s.socktcp s.connecting :: es)

/-- `connect_cb`. The request of a handle that is being closed fails. -/
def connectCb (s : Netlibuv) (status : ℤ) : Netlibuv × List Event :=
  let s₁ := { s with
    connecting := false
    ptcpHandle := true
    socktcp := if s.socktcp = .connecting then
      if status = 0 then .connected else .refused else s.socktcp }
  if status ≠ 0 then (s₁, [.connectCb status, .connectCallBack status])
  else ({ s₁ with btcpClosed := false, reading := true }, [.connectCb status, .connectCallBack 0])

def readCb (s : Netlibuv) (nread : ℤ) : Netlibuv × List Event :=
  if nread < 0 then ({ s with reading := false }, [.readStop, .readCallback (-1)])
  else (s, [.readCallback nread])

def closeCb (s : Netlibuv) : Netlibuv × List Event :=
  ({ s with socktcp := .closed, btcpClosed := true, reading := false }, [.closeCb])

/-! ## Runs -/

inductive Act
  | netAsyncSend (t : ℕ) (pBuffer : List UInt8) (ma re : Answer)
  | netSend (t : ℕ) (pBuffer : List UInt8)
  | takeSend (t : ℕ) (ma : Answer)
  | fill (t : ℕ) (ma re : Answer)
  | write (t : ℕ) (err : ℤ)
  | asyncEnter (i : ℕ)
  | asyncReturn
  | writeCb (r : ℕ) (status : ℤ)
  | netConnect (err : ℤ)
  | netReConnect (err : ℤ)
  | netCloseConnection
  | connectCb (status : ℤ)
  | readCb (nread : ℤ)
  | closeCb

/-- The loop thread is between two callbacks, or in code of the user that one has called. -/
def LoopIdle (s : Netlibuv) : Prop := s.netSend loopThread = .idle ∧ s.asyncCb = none

instance (s : Netlibuv) : Decidable s.LoopIdle := inferInstanceAs (Decidable (_ ∧ _))

/-- A thread may call; the loop thread not while `async_cb` runs, which calls nothing but
`net_Send`. -/
def Idle (s : Netlibuv) (t : ℕ) : Prop :=
  s.netSend t = .idle ∧ (t = loopThread → s.asyncCb = none)

instance (s : Netlibuv) (t : ℕ) : Decidable (s.Idle t) := inferInstanceAs (Decidable (_ ∧ _))

/-- The connect request has a result: any while the handle connects, a failure where it is
being closed. -/
def ConnectResult (s : Netlibuv) (status : ℤ) : Prop :=
  s.connecting = true ∧ (s.socktcp = .connecting ∨ s.socktcp = .closing ∧ status ≠ 0)

instance (s : Netlibuv) (status : ℤ) : Decidable (s.ConnectResult status) :=
  inferInstanceAs (Decidable (_ ∧ _))

def step (w : ℕ) (s : Netlibuv) (a : Act) : Option (Netlibuv × List Event) :=
  if s.down then none
  else
    match a with
    | .netAsyncSend t pBuffer ma re =>
      if s.Idle t ∧ s.asyncCb = none then
        (s.netAsyncSend w pBuffer ma re).map fun p => (p.1, p.2.2)
      else none
    | .netSend t pBuffer =>
      if s.Idle t then some ({ s with netSend := update s.netSend t (.entered pBuffer) }, [])
      else none
    | .takeSend t ma =>
      match s.netSend t with
      | .entered pBuffer =>
        (s.takeSend ma).map fun p =>
          ({ p.2 with netSend := update s.netSend t (.obtained p.1 pBuffer) },
            [.obtained t p.1 pBuffer])
      | .idle | .obtained _ _ | .filled _ => none
    | .fill t ma re =>
      match s.netSend t with
      | .obtained r pBuffer =>
        (s.fill w r pBuffer ma re).map fun s₁ =>
          ({ s₁ with netSend := update s.netSend t (.filled r) }, [])
      | .idle | .entered _ | .filled _ => none
    | .write t err =>
      match s.netSend t with
      | .filled r => some (s.write t r err)
      | .idle | .entered _ | .obtained _ _ => none
    | .asyncEnter i =>
      if s.LoopIdle ∧ i ∈ s.asyncPending then some (s.asyncEnter i) else none
    | .asyncReturn =>
      match s.asyncCb with
      | some i =>
        if s.netSend loopThread = .idle then
          some ({ s with asyncCb := none }, [.asyncReturned i])
        else none
      | none => none
    | .writeCb r status =>
      if s.LoopIdle ∧ (s.writing r).isSome then some (s.writeCb r status) else none
    | .netConnect err => some (s.netConnect err)
    | .netReConnect err => if s.LoopIdle then some (s.netReConnect err) else none
    | .netCloseConnection => if s.LoopIdle then some s.netCloseConnection else none
    | .connectCb status =>
      if s.LoopIdle ∧ s.ConnectResult status then some (s.connectCb status) else none
    | .readCb nread =>
      if s.LoopIdle ∧ s.reading = true ∧ s.socktcp = .connected then some (s.readCb nread)
      else none
    | .closeCb =>
      if s.LoopIdle ∧ s.socktcp = .closing ∧ s.connecting = false then some s.closeCb else none

/-- The object as its constructor leaves it; the records do not exist yet. -/
def create (send : ℕ → Sendst) (asyncSend : ℕ → Safebuffer) : Netlibuv where
  dSend := []
  mapSend := ∅
  created := 0
  send := send
  writing := fun _ => none
  dAsyncSend := List.range asyncHandleNum
  mapAsyncSend := ∅
  asyncSend := asyncSend
  asyncPending := ∅
  asyncCb := none
  netSend := fun _ => .idle
  ptcpHandle := false
  btcpClosed := false
  socktcp := .inited
  connecting := false
  reading := false
  down := false

/-- The buffers of the async handles come from their constructors. -/
def Init (s : Netlibuv) : Prop :=
  ∃ send asyncSend, (∀ i < asyncHandleNum, ∃ ma, Safebuffer.create ma = some (asyncSend i)) ∧
    s = create send asyncSend

def fresh : Netlibuv :=
  let buffer : Safebuffer := ⟨some ⟨1, List.replicate defaultBufferLen 0⟩, defaultBufferLen, 0, 0⟩
  create (fun _ => ⟨⟨none, 0⟩, buffer⟩) fun _ => buffer

theorem init_fresh : Init fresh := by
  refine ⟨_, _, fun i _ => ⟨⟨true, 1, fun _ => 0⟩, ?_⟩, rfl⟩
  decide +kernel

end Netlibuv

def netlib (w : ℕ) : System Netlibuv Netlibuv.Act Netlibuv.Event := ⟨Netlibuv.Init, Netlibuv.step w⟩

end UvWrapper
