import UvWrapper.Lib.System
import UvWrapper.Lib.Pool
import Mathlib.Logic.Function.Basic

/-! # The request loop

The class `uvloop`: a fixed pool of async handles carries requests from any thread to
the loop thread. A handle is named by its place in the constructor's loop, which is
also the order of its `uv_async_init`. The type of bound callbacks is a parameter.
-/

namespace UvWrapper

open Function

def asyncHandles : ℕ := 5

inductive EType
  | loopStop | tcpConnect | tcpClose | tcpWrite | tcpListen | timerStart | timerStop
  | tcpReadStart | tcpReadStop
  deriving DecidableEq, Repr

inductive LoopErr | noErr | busy | stop
  deriving DecidableEq, Repr

/-- `stAsync` without its `uv_async_t`, whose address is the handle, and without
`ploop`, which is the loop itself; an empty `std::function` is `none`. -/
structure StAsync (Cb : Type) where
  eEvent : EType
  tcb : Option Cb
  deriving DecidableEq

/-- Where the loop thread stands: there is none; in `uv_run` between two callbacks;
inside `pSt->tcb()`; past it with `tcb` cleared and the lock not yet taken; behind
`uv_run` with `m_bRunning` not yet cleared; dead. -/
inductive Position
  | down
  | polling
  | running (h : ℕ)
  | ran (h : ℕ)
  | left
  | aborted
  deriving DecidableEq, Repr

def Position.handle : Position → Option ℕ
  | .running h | .ran h => some h
  | _ => none

/-- The fields of `uvloop`; the map `m_mapAsync` from a record's own address to the
record is the set of its records. `signalled`, `cursor` and `stopFlag` are libuv's: the
pending flag of each async handle, the place the current pass over them has reached,
and the flag of `uv_stop`. -/
structure Uvloop (Cb : Type) where
  bRunning : Bool
  dAsync : List ℕ
  mapAsync : Finset ℕ
  async : ℕ → StAsync Cb
  signalled : ℕ → Bool
  cursor : ℕ
  stopFlag : Bool
  position : Position

namespace Uvloop

variable {Cb : Type} {l l' : Uvloop Cb} {h x : ℕ}

/-- The constructor. `new stAsync` leaves `eEvent` with an arbitrary value. -/
def create (garbage : ℕ → EType) : Uvloop Cb where
  bRunning := false
  dAsync := List.range asyncHandles
  mapAsync := ∅
  async h := ⟨garbage h, none⟩
  signalled _ := false
  cursor := 0
  stopFlag := false
  position := .down

/-- The critical section shared by `AddReq` and `stop`: take a handle, fill it in,
index it and signal it; `none` where `m_dAsync` is empty. -/
def takeAsync (l : Uvloop Cb) (fill : StAsync Cb → StAsync Cb) : Option (ℕ × Uvloop Cb) :=
  match l.dAsync with
  | [] => none
  | h :: rest => some (h,
      { l with
        dAsync := rest
        async := update l.async h (fill (l.async h))
        mapAsync := insert h l.mapAsync
        signalled := update l.signalled h true })

/-- What the callers write into the handle they take: `AddReq` sets the event and the
callback, `stop` the event only. -/
inductive Fill (Cb : Type)
  | addReq (eEventType : EType) (pCallback : Option Cb)
  | stop
  deriving DecidableEq

def Fill.apply : Fill Cb → StAsync Cb → StAsync Cb
  | .addReq eEventType pCallback, _ => ⟨eEventType, pCallback⟩
  | .stop, st => { st with eEvent := .loopStop }

inductive Event (Cb : Type)
  | accepted (h : ℕ) (req : StAsync Cb)
  | refused (err : LoopErr)
  | asyncSend (h : ℕ)
  | ran (h : ℕ) (req : StAsync Cb)
  | recycled (h : ℕ)
  | badFunctionCall (h : ℕ)
  | derefEnd (h : ℕ)
  deriving DecidableEq

/-- The locked part of `AddReq` and of `stop`. -/
def submit (l : Uvloop Cb) (fill : Fill Cb) : Uvloop Cb × List (Event Cb) :=
  match l.takeAsync fill.apply with
  | none => (l, [.refused .busy])
  | some (h, l') => (l', [.accepted h (l'.async h), .asyncSend h])

/-- The switch at the head of the async callback. The default branch is not reachable
for a value of the enumeration. Calling an empty `tcb` throws out of the loop. -/
def callback (l : Uvloop Cb) (h : ℕ) : Uvloop Cb × List (Event Cb) :=
  let l₁ := { l with signalled := update l.signalled h false, cursor := h + 1 }
  let st := l.async h
  match st.eEvent with
  | .loopStop =>
    ({ l₁ with
        stopFlag := true
        async := update l.async h { st with tcb := none }
        position := .ran h }, [.ran h st])
  | _ =>
    match st.tcb with
    | some _ => ({ l₁ with position := .running h }, [.ran h st])
    | none => ({ l₁ with position := .aborted }, [.badFunctionCall h])

/-- The locked tail of the async callback; its first branch dereferences `end()`. -/
def recycleAsync (l : Uvloop Cb) (h : ℕ) : Uvloop Cb × List (Event Cb) :=
  if h ∈ l.mapAsync then
    ({ l with
        dAsync := l.dAsync ++ [h]
        mapAsync := l.mapAsync.erase h
        position := .polling }, [.recycled h])
  else ({ l with position := .aborted }, [.derefEnd h])

/-- The steps of the loop thread: enter the callback of a signalled handle, return from
`tcb` and clear it, recycle the handle, pass over a handle that is not signalled, begin
a new pass, return from `uv_run`, clear `m_bRunning`. -/
inductive Turn
  | fire (h : ℕ) | tcbReturn | recycle | skip | newPass | leave | clearRunning
  deriving DecidableEq, Repr

/-- The order in which signalled handles fire is left open. -/
def turn (l : Uvloop Cb) : Turn → Option (Uvloop Cb × List (Event Cb))
  | .fire h =>
    if l.position = .polling ∧ l.signalled h = true then some (l.callback h) else none
  | .tcbReturn =>
    match l.position with
    | .running h => some ({ l with
        async := update l.async h { l.async h with tcb := none }
        position := .ran h }, [])
    | _ => none
  | .recycle =>
    match l.position with
    | .ran h => some (l.recycleAsync h)
    | _ => none
  | .skip =>
    if l.position = .polling ∧ l.cursor < asyncHandles ∧ l.signalled l.cursor = false then
      some ({ l with cursor := l.cursor + 1 }, [])
    else none
  | .newPass =>
    if l.position = .polling ∧ asyncHandles ≤ l.cursor then
      some ({ l with cursor := 0 }, [])
    else none
  | .leave =>
    if l.position = .polling ∧ l.stopFlag = true then
      some ({ l with stopFlag := false, position := .left }, [])
    else none
  | .clearRunning =>
    if l.position = .left then some ({ l with bRunning := false, position := .down }, [])
    else none

/-- The thread `run` creates enters `uv_run`; `run` sets `m_bRunning` afterwards. Calls of `run`
do not overlap: one that finds `m_bRunning` false while a loop thread is in `uv_run` is no step. -/
def spawn (l : Uvloop Cb) : Option (Uvloop Cb) :=
  if l.bRunning = false ∧ l.position = .down then some { l with position := .polling }
  else none

/-- The pool of handles: free in `m_dAsync`, in use in `m_mapAsync`. -/
def pool (l : Uvloop Cb) : Recycling.Pool ℕ := ⟨l.dAsync, l.mapAsync⟩

def InUse (l : Uvloop Cb) (h : ℕ) : Prop :=
  l.signalled h = true ∨ l.position.handle = some h

def pending (l : Uvloop Cb) (h : ℕ) : Option (StAsync Cb) :=
  if l.signalled h then some (l.async h) else none

theorem takeAsync_eq_none {fill : StAsync Cb → StAsync Cb} :
    l.takeAsync fill = none ↔ l.dAsync = [] := by
  unfold takeAsync; split <;> simp_all

theorem takeAsync_cases {fill : StAsync Cb → StAsync Cb} (ht : l.takeAsync fill = some (h, l')) :
    l.pool.take = some (h, l'.pool) ∧
      l' = { l with
        dAsync := l'.dAsync
        async := update l.async h (fill (l.async h))
        mapAsync := l'.mapAsync
        signalled := update l.signalled h true } := by
  unfold takeAsync at ht
  split at ht
  · contradiction
  · next rest he =>
    obtain ⟨rfl, rfl⟩ := Prod.mk.inj (Option.some.inj ht)
    exact ⟨by simp [pool, Recycling.Pool.take, he], rfl⟩

theorem head_of_takeAsync {fill : StAsync Cb → StAsync Cb}
    (ht : l.takeAsync fill = some (h, l')) : l.dAsync.head? = some h := by
  unfold takeAsync at ht
  split at ht
  · contradiction
  · next rest he =>
    obtain ⟨rfl, -⟩ := Prod.mk.inj (Option.some.inj ht)
    rw [he, List.head?_cons]

end Uvloop

end UvWrapper
