import UvWrapper.Connect.Steps
import UvWrapper.Loop.Answers

/-! # What the connection's functions return

Each public function of `uvconnect` that adds a request returns whether `AddReq` returned
`ERR_LOOP_NO_ERR`. The callbacks, which may add a request too, return nothing to anybody.
-/

namespace UvWrapper.Uvconnect

open Function Uvloop

variable {w : ℕ} {s s' : Uvconnect} {a : Act} {es : List Event} {t r : ℕ} {req : Req}

def Event.isCall : Event → Bool
  | .rejected _ | .obtained _ _ _ | .filled _ _ _ | .returned _ _ _ => true
  | _ => false

def Event.result : Event → Option Bool
  | .rejected _ => some false
  | .returned _ _ err => some (err == .noErr)
  | _ => none

/-- What `AddReq` returns to a function of the connection. -/
def Event.answer : Event → Option LoopErr
  | .loop e => e.answer
  | _ => none

theorem result_loop (les : List (Uvloop.Event Req)) :
    (les.map Event.loop).filterMap Event.result = [] := filterMap_loop (fun _ => rfl) les

theorem isCall_loop (les : List (Uvloop.Event Req)) :
    ∀ e ∈ les.map Event.loop, e.isCall = false := by
  simp [Event.isCall]

theorem mem_of_isCall {les : List (Uvloop.Event Req)} {fs : List Event} {e : Event}
    (he : e ∈ les.map .loop ++ fs) (hc : e.isCall = true) : e ∈ fs := by
  rcases List.mem_append.mp he with he | he
  · cases hc.symm.trans (isCall_loop les e he)
  · exact he

theorem isCall_notify (s : Uvconnect) (ev : EvType) (arg : ℤ) :
    ∀ e ∈ s.notify ev arg, e.isCall = false := by
  unfold notify
  split <;> simp [Event.isCall]

theorem PerformCases.isCall {err : ℤ} (h : PerformCases s err req s' es) :
    ∀ e ∈ es, e.isCall = false := by
  cases h <;> simp [Uvconnect.connect, Event.isCall]

theorem ReadCases.isCall {nread : ℤ} (h : ReadCases s nread s' es) :
    ∀ e ∈ es, e.isCall = false := by
  cases h with
  | data => exact isCall_notify s _ _
  | fault => simp [Event.isCall]
  | lost => exact List.forall_mem_cons.mpr ⟨rfl, isCall_notify s _ _⟩

theorem ClosedCases.isCall {h : ℕ} (hc : ClosedCases s h s' es) :
    ∀ e ∈ es, e.isCall = false := by
  cases hc with
  | submitted loop les => exact isCall_loop les
  | _ => simp [Event.isCall]

theorem isCall_written (s : Uvconnect) (r : ℕ) (status : ℤ) :
    ∀ e ∈ (s.written r status).2, e.isCall = false := by
  unfold written
  split
  · exact List.forall_mem_cons.mpr ⟨rfl, isCall_notify _ _ _⟩
  · simp [crash, Event.isCall]

/-- The steps with events of a call: the first half of `wirteData`, a function turned away,
and `AddReq` returning. -/
inductive CallCases (w : ℕ) (s : Uvconnect) : Act → Uvconnect → List Event → Prop
  | quiet (a : Act) (s' : Uvconnect) (es : List Event) : (∀ e ∈ es, e.isCall = false) →
      CallCases w s a s' es
  | rejected (a : Act) (t : ℕ) : CallCases w s a s [.rejected t]
  | obtained (a : Act) (s' : Uvconnect) (t r : ℕ) (buf : List UInt8) :
      CallCases w s a s' [.obtained t r buf]
  | filled (t r : ℕ) (ma re : Memory.Answer) (buf : List UInt8) (b : Safebuffer) (ok : Bool) :
      s.call t = .obtained r buf → (s.send r).tsafebuf.readmem w buf ma re = some (b, ok) →
      CallCases w s (.readmem t ma re) { s with
        send := update s.send r { s.send r with tsafebuf := b }
        call := update s.call t (.requesting (.tcpWrite r)) } [.filled t r ok]
  | addReq (s' : Uvconnect) (t : ℕ) (req : Req) (th : Threads Req)
      (les : List (Uvloop.Event Req)) :
      s.threads.step (.call t (.addReq req.eType (some req))) = some (th, les) →
      CallCases w s (.addReq t) s'
        (les.map .loop ++ if s.threads.loop.bRunning then [] else [.returned t req .stop])
  | lock (s' : Uvconnect) (t : ℕ) (th : Threads Req) (les : List (Uvloop.Event Req)) :
      s.threads.step (.lock t) = some (th, les) →
      CallCases w s (.lock t) s' (les.map .loop ++ s.lockResult t)

theorem call_cases (hs : s.step w a = some (s', es)) : CallCases w s a s' es := by
  cases step_cases hs with
  | registerConnect | registerloopAndStream | setEventHandler | setIPAndAddr | checked
  | requesting | obtainFault | fillFault | addReqFault =>
    apply CallCases.quiet
    simp [Event.isCall]
  | rejected t | requestRejected t => exact .rejected _ t
  | loop a b th les | turn b th les => exact .quiet _ _ _ (isCall_loop les)
  | obtained t ma buf r s₁ => exact .obtained _ _ t r buf
  | filled t ma re r buf b ok hc hr => exact .filled t r ma re buf b ok hc hr
  | addReq t req th les _ ht => exact .addReq _ t req th les ht
  | lock t th les ht => exact .lock _ t th les ht
  | perform req err => exact .quiet _ _ _ (perform_cases _ req err).isCall
  | connectCb h status =>
    apply CallCases.quiet
    exact List.forall_mem_cons.mpr ⟨rfl, isCall_notify s _ _⟩
  | readCb h nread => exact .quiet _ _ _ (readDone_cases s nread).isCall
  | writeCb r status => exact .quiet _ _ _ (isCall_written s r status)
  | closeCb h => exact .quiet _ _ _ (closed_cases s h).isCall

theorem result_eq_none {e : Event} (h : e.isCall = false) : e.result = none := by
  cases e <;> first | rfl | cases h

/-- No public function returns true for a request that the loop has not taken. -/
theorem onlyIfTaken_of_step (hs : s.step w a = some (s', es)) :
    OnlyIfTaken (es.filterMap Event.result) (es.filterMap Event.answer) := by
  cases call_cases hs with
  | quiet _ _ _ hq =>
    have hnil : es.filterMap Event.result = [] :=
      List.filterMap_eq_nil_iff.mpr fun e he => result_eq_none (hq e he)
    rw [hnil]
    exact onlyIfTaken_of_notMem List.not_mem_nil
  | rejected | obtained | filled => exact onlyIfTaken_of_notMem (by simp [Event.result])
  | addReq _ t req th les ht =>
    rw [List.filterMap_append, result_loop]
    apply onlyIfTaken_of_notMem
    split <;> simp [Event.result]
  | lock _ t th les ht =>
    unfold lockResult
    split
    · refine Iff.mpr (onlyIfTaken_end (fun _ => rfl) (fun _ => rfl) (answers_of_lock ht) rfl
        rfl) ?_
      simp
    · rw [List.append_nil, result_loop]
      exact onlyIfTaken_of_notMem List.not_mem_nil

end UvWrapper.Uvconnect
