import UvWrapper.Loop.Threads

/-! # The critical sections of the loop

`AddReq`, `stop` and the end of the async callback statement by statement, with the mutex
`m_lockAsync`. Between two of these statements any other thread may run, and so may libuv: a
handle that has been signalled can fire before the thread that signalled it has left the lock.
`run` tests `m_bRunning` and creates the loop thread in one step, as its calls do not overlap.
-/

namespace UvWrapper.Uvloop

open Function Transition

def Fill.setEvent {Cb : Type} : Fill Cb → StAsync Cb → StAsync Cb
  | .addReq eEventType _, st => { st with eEvent := eEventType }
  | .stop, st => { st with eEvent := .loopStop }

/-- What `AddReq` writes into `tcb`; `stop` has no such statement. -/
def Fill.setTcb {Cb : Type} : Fill Cb → StAsync Cb → StAsync Cb
  | .addReq _ pCallback, st => { st with tcb := pCallback }
  | .stop, st => st

theorem Fill.setTcb_setEvent {Cb : Type} (fill : Fill Cb) (st : StAsync Cb) :
    fill.setTcb (fill.setEvent st) = fill.apply st := by
  cases fill <;> rfl

/-- Where a thread stands: in no call; in `run` with `m_bRunning` not yet set; before the lock;
inside it, and then behind each statement that writes: `pop_front`, the two assignments, the
insertion into `m_mapAsync`, and `uv_async_send` or the return of an error. `old` is what the
record held before, which nothing reads any more. -/
inductive Point (Cb : Type)
  | idle
  | starting
  | locking (fill : Fill Cb)
  | locked (fill : Fill Cb)
  | popped (fill : Fill Cb) (h : ℕ) (old : StAsync Cb)
  | typed (fill : Fill Cb) (h : ℕ) (old : StAsync Cb)
  | filled (fill : Fill Cb) (h : ℕ) (old : StAsync Cb)
  | inserted (fill : Fill Cb) (h : ℕ) (old : StAsync Cb)
  | returning
  deriving DecidableEq

/-- Where the loop thread stands at the end of an async callback: not inside the lock; inside
it; behind `push_back`; behind `erase`. -/
inductive Tail
  | out
  | locked (h : ℕ)
  | pushed (h : ℕ)
  | erased (h : ℕ)
  deriving DecidableEq

inductive Party
  | thread (t : ℕ)
  | loop
  deriving DecidableEq

/-- The memory of the loop between two statements, and who holds the lock. -/
structure Statements (Cb : Type) where
  loop : Uvloop Cb
  point : ℕ → Point Cb
  tail : Tail
  lockAsync : Option Party

/-- The statements: the tests of `m_bRunning`; the lock, each statement inside it, and its
release, on a thread and on the loop thread; the other steps of the loop thread. -/
inductive Statement (Cb : Type)
  | call (t : ℕ) (fill : Fill Cb)
  | run (t : ℕ)
  | setRunning (t : ℕ)
  | acquire (t : ℕ)
  | next (t : ℕ)
  | release (t : ℕ)
  | turn (b : Turn)
  | acquireTail
  | nextTail
  | releaseTail

namespace Statements

variable {Cb : Type}

/-- The statements of `AddReq` and `stop` inside the lock. -/
def next (s : Statements Cb) (t : ℕ) : Option (Statements Cb × List (Event Cb)) :=
  match s.point t with
  | .locked fill =>
    match s.loop.dAsync with
    | [] => some ({ s with point := update s.point t .returning }, [.refused .busy])
    | h :: rest => some ({ s with
        loop := { s.loop with dAsync := rest }
        point := update s.point t (.popped fill h (s.loop.async h)) }, [])
  | .popped fill h old => some ({ s with
      loop := { s.loop with async := update s.loop.async h (fill.setEvent (s.loop.async h)) }
      point := update s.point t (.typed fill h old) }, [])
  | .typed fill h old => some ({ s with
      loop := { s.loop with async := update s.loop.async h (fill.setTcb (s.loop.async h)) }
      point := update s.point t (.filled fill h old) }, [])
  | .filled fill h old => some ({ s with
      loop := { s.loop with mapAsync := insert h s.loop.mapAsync }
      point := update s.point t (.inserted fill h old) }, [])
  | .inserted _ h _ => some ({ s with
      loop := { s.loop with signalled := update s.loop.signalled h true }
      point := update s.point t .returning },
      [.accepted h (s.loop.async h), .asyncSend h])
  | _ => none

def nextTail (s : Statements Cb) : Option (Statements Cb × List (Event Cb)) :=
  match s.tail with
  | .locked h =>
    if h ∈ s.loop.mapAsync then some ({ s with
      loop := { s.loop with dAsync := s.loop.dAsync ++ [h] }
      tail := .pushed h }, [.recycled h])
    else some ({ s with loop := { s.loop with position := .aborted }, tail := .out }, [.derefEnd h])
  | .pushed h => some ({ s with
      loop := { s.loop with mapAsync := s.loop.mapAsync.erase h }
      tail := .erased h }, [])
  | _ => none

def step (s : Statements Cb) : Statement Cb → Option (Statements Cb × List (Event Cb))
  | .call t fill =>
    match s.point t with
    | .idle =>
      if s.loop.bRunning then some ({ s with point := update s.point t (.locking fill) }, [])
      else some (s, [.refused .stop])
    | _ => none
  | .run t =>
    match s.point t with
    | .idle => s.loop.spawn.map fun loop =>
        ({ s with loop, point := update s.point t .starting }, [])
    | _ => none
  | .setRunning t =>
    match s.point t with
    | .starting => some ({ s with
        loop := { s.loop with bRunning := true }
        point := update s.point t .idle }, [])
    | _ => none
  | .acquire t =>
    match s.point t with
    | .locking fill =>
      if s.lockAsync = none then some ({ s with
        point := update s.point t (.locked fill)
        lockAsync := some (.thread t) }, [])
      else none
    | _ => none
  | .next t => s.next t
  | .release t =>
    match s.point t with
    | .returning => some ({ s with point := update s.point t .idle, lockAsync := none }, [])
    | _ => none
  | .turn b =>
    if s.tail = .out ∧ b ≠ .recycle then (s.loop.turn b).map fun p => ({ s with loop := p.1 }, p.2)
    else none
  | .acquireTail =>
    match s.loop.position with
    | .ran h =>
      if s.tail = .out ∧ s.lockAsync = none then
        some ({ s with tail := .locked h, lockAsync := some .loop }, [])
      else none
    | _ => none
  | .nextTail => s.nextTail
  | .releaseTail =>
    match s.tail with
    | .erased _ => some ({ s with
        loop := { s.loop with position := .polling }
        tail := .out
        lockAsync := none }, [])
    | _ => none

def Init (s : Statements Cb) : Prop :=
  ∃ garbage, s = ⟨Uvloop.create garbage, fun _ => .idle, .out, none⟩

/-- `AddReq` is called with a callback and not for `E_LOOP_STOP`. -/
def callersBehave (_ : Statements Cb) : Statement Cb → Prop
  | .call _ fill => fill.Callable
  | _ => True

instance : DecidableRel (callersBehave : Statements Cb → Statement Cb → Prop) := fun _ a =>
  match a with
  | .call _ (.addReq _ _) => inferInstanceAs (Decidable (_ ∧ _))
  | .call _ .stop | .run _ | .setRunning _ | .acquire _ | .next _ | .release _ | .turn _
  | .acquireTail | .nextTail | .releaseTail => .isTrue trivial

variable {s s' : Statements Cb} {a : Statement Cb} {es : List (Event Cb)} {t : ℕ}

inductive StepCases (s : Statements Cb) : Statement Cb → Statements Cb → List (Event Cb) → Prop
  | called (t : ℕ) (fill : Fill Cb) : s.point t = .idle → s.loop.bRunning = true →
      StepCases s (.call t fill) { s with point := update s.point t (.locking fill) } []
  | refused (t : ℕ) (fill : Fill Cb) : s.point t = .idle → s.loop.bRunning = false →
      StepCases s (.call t fill) s [.refused .stop]
  | run (t : ℕ) (loop : Uvloop Cb) : s.point t = .idle → s.loop.spawn = some loop →
      StepCases s (.run t) { s with loop, point := update s.point t .starting } []
  | setRunning (t : ℕ) : s.point t = .starting → StepCases s (.setRunning t) { s with
      loop := { s.loop with bRunning := true }
      point := update s.point t .idle } []
  | acquire (t : ℕ) (fill : Fill Cb) : s.point t = .locking fill → s.lockAsync = none →
      StepCases s (.acquire t) { s with
        point := update s.point t (.locked fill)
        lockAsync := some (.thread t) } []
  | busy (t : ℕ) (fill : Fill Cb) : s.point t = .locked fill → s.loop.dAsync = [] →
      StepCases s (.next t) { s with point := update s.point t .returning } [.refused .busy]
  | pop (t : ℕ) (fill : Fill Cb) (h : ℕ) (rest : List ℕ) : s.point t = .locked fill →
      s.loop.dAsync = h :: rest → StepCases s (.next t) { s with
        loop := { s.loop with dAsync := rest }
        point := update s.point t (.popped fill h (s.loop.async h)) } []
  | setEvent (t : ℕ) (fill : Fill Cb) (h : ℕ) (old : StAsync Cb) :
      s.point t = .popped fill h old → StepCases s (.next t) { s with
        loop := { s.loop with async := update s.loop.async h (fill.setEvent (s.loop.async h)) }
        point := update s.point t (.typed fill h old) } []
  | setTcb (t : ℕ) (fill : Fill Cb) (h : ℕ) (old : StAsync Cb) :
      s.point t = .typed fill h old → StepCases s (.next t) { s with
        loop := { s.loop with async := update s.loop.async h (fill.setTcb (s.loop.async h)) }
        point := update s.point t (.filled fill h old) } []
  | insert (t : ℕ) (fill : Fill Cb) (h : ℕ) (old : StAsync Cb) :
      s.point t = .filled fill h old → StepCases s (.next t) { s with
        loop := { s.loop with mapAsync := insert h s.loop.mapAsync }
        point := update s.point t (.inserted fill h old) } []
  | send (t : ℕ) (fill : Fill Cb) (h : ℕ) (old : StAsync Cb) :
      s.point t = .inserted fill h old → StepCases s (.next t) { s with
        loop := { s.loop with signalled := update s.loop.signalled h true }
        point := update s.point t .returning } [.accepted h (s.loop.async h), .asyncSend h]
  | release (t : ℕ) : s.point t = .returning → StepCases s (.release t)
      { s with point := update s.point t .idle, lockAsync := none } []
  | turn (b : Turn) (loop : Uvloop Cb) (es : List (Event Cb)) : s.tail = .out → b ≠ .recycle →
      s.loop.turn b = some (loop, es) → StepCases s (.turn b) { s with loop } es
  | acquireTail (h : ℕ) : s.loop.position = .ran h → s.tail = .out → s.lockAsync = none →
      StepCases s .acquireTail { s with tail := .locked h, lockAsync := some .loop } []
  | push (h : ℕ) : s.tail = .locked h → h ∈ s.loop.mapAsync → StepCases s .nextTail { s with
      loop := { s.loop with dAsync := s.loop.dAsync ++ [h] }
      tail := .pushed h } [.recycled h]
  | derefEnd (h : ℕ) : s.tail = .locked h → h ∉ s.loop.mapAsync → StepCases s .nextTail { s with
      loop := { s.loop with position := .aborted }
      tail := .out } [.derefEnd h]
  | erase (h : ℕ) : s.tail = .pushed h → StepCases s .nextTail { s with
      loop := { s.loop with mapAsync := s.loop.mapAsync.erase h }
      tail := .erased h } []
  | releaseTail (h : ℕ) : s.tail = .erased h → StepCases s .releaseTail { s with
      loop := { s.loop with position := .polling }
      tail := .out
      lockAsync := none } []

theorem next_cases (hs : s.next t = some (s', es)) : StepCases s (.next t) s' es := by
  unfold next at hs
  split at hs
  · next fill hp =>
    split at hs <;> obtain ⟨rfl, rfl⟩ := Prod.mk.inj (Option.some.inj hs)
    · next hd => exact .busy t fill hp hd
    · next h rest hd => exact .pop t fill h rest hp hd
  · next fill h old hp =>
    obtain ⟨rfl, rfl⟩ := Prod.mk.inj (Option.some.inj hs)
    exact .setEvent t fill h old hp
  · next fill h old hp =>
    obtain ⟨rfl, rfl⟩ := Prod.mk.inj (Option.some.inj hs)
    exact .setTcb t fill h old hp
  · next fill h old hp =>
    obtain ⟨rfl, rfl⟩ := Prod.mk.inj (Option.some.inj hs)
    exact .insert t fill h old hp
  · next fill h old hp =>
    obtain ⟨rfl, rfl⟩ := Prod.mk.inj (Option.some.inj hs)
    exact .send t fill h old hp
  · contradiction

theorem nextTail_cases (hs : s.nextTail = some (s', es)) : StepCases s .nextTail s' es := by
  unfold nextTail at hs
  split at hs
  · next h ht =>
    split at hs <;> obtain ⟨rfl, rfl⟩ := Prod.mk.inj (Option.some.inj hs)
    · next hm => exact .push h ht hm
    · next hm => exact .derefEnd h ht hm
  · next h ht =>
    obtain ⟨rfl, rfl⟩ := Prod.mk.inj (Option.some.inj hs)
    exact .erase h ht
  · contradiction

theorem step_cases (hs : s.step a = some (s', es)) : StepCases s a s' es := by
  cases a with
  | call t fill =>
    dsimp only [step] at hs
    split at hs
    · next hp =>
      split at hs <;> obtain ⟨rfl, rfl⟩ := Prod.mk.inj (Option.some.inj hs)
      · next hr => exact .called t fill hp hr
      · next hr => exact .refused t fill hp (by simpa using hr)
    · contradiction
  | run t =>
    dsimp only [step] at hs
    split at hs
    · next hp =>
      obtain ⟨loop, hl, he⟩ := Option.map_eq_some_iff.mp hs
      obtain ⟨rfl, rfl⟩ := Prod.mk.inj he
      exact .run t loop hp hl
    · contradiction
  | setRunning t =>
    dsimp only [step] at hs
    split at hs
    · next hp =>
      obtain ⟨rfl, rfl⟩ := Prod.mk.inj (Option.some.inj hs)
      exact .setRunning t hp
    · contradiction
  | acquire t =>
    dsimp only [step] at hs
    split at hs
    · next fill hp =>
      obtain ⟨hl, hs⟩ := Option.ite_none_right_eq_some.mp hs
      obtain ⟨rfl, rfl⟩ := Prod.mk.inj (Option.some.inj hs)
      exact .acquire t fill hp hl
    · contradiction
  | next t => exact next_cases hs
  | release t =>
    dsimp only [step] at hs
    split at hs
    · next hp =>
      obtain ⟨rfl, rfl⟩ := Prod.mk.inj (Option.some.inj hs)
      exact .release t hp
    · contradiction
  | turn b =>
    obtain ⟨⟨ht, hb⟩, hs⟩ := Option.ite_none_right_eq_some.mp hs
    obtain ⟨⟨loop, les⟩, hl, he⟩ := Option.map_eq_some_iff.mp hs
    obtain ⟨rfl, rfl⟩ := Prod.mk.inj he
    exact .turn b loop les ht hb hl
  | acquireTail =>
    dsimp only [step] at hs
    split at hs
    · next h hp =>
      obtain ⟨⟨ht, hl⟩, hs⟩ := Option.ite_none_right_eq_some.mp hs
      obtain ⟨rfl, rfl⟩ := Prod.mk.inj (Option.some.inj hs)
      exact .acquireTail h hp ht hl
    · contradiction
  | nextTail => exact nextTail_cases hs
  | releaseTail =>
    dsimp only [step] at hs
    split at hs
    · next h ht =>
      obtain ⟨rfl, rfl⟩ := Prod.mk.inj (Option.some.inj hs)
      exact .releaseTail h ht
    · contradiction

end Statements

def statements (Cb : Type) : System (Statements Cb) (Statement Cb) (Event Cb) :=
  ⟨Statements.Init, Statements.step⟩

end UvWrapper.Uvloop
