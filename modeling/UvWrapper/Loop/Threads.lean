import UvWrapper.Loop.Invariant

/-! # Threads around one loop

Any number of threads submit to the loop while its own thread fires, runs and recycles.
A call reads `m_bRunning` before it takes the lock; calls made from inside a running
callback are calls like any other. Over every interleaving the pool of handles stays
exact and every accepted request is run once, with its own callback.
-/

namespace UvWrapper.Uvloop

open Function Transition

/-- What a thread is doing: nothing; `AddReq` or `stop` between the test of `m_bRunning`
and the lock; `run` between the creation of the thread and `m_bRunning = true`. -/
inductive Call (Cb : Type)
  | idle
  | locking (fill : Fill Cb)
  | starting
  deriving DecidableEq

structure Threads (Cb : Type) where
  loop : Uvloop Cb
  call : ℕ → Call Cb

/-- The steps of the threads, each named by a number, and of the loop thread. -/
inductive Act (Cb : Type)
  | call (t : ℕ) (fill : Fill Cb)
  | lock (t : ℕ)
  | run (t : ℕ)
  | setRunning (t : ℕ)
  | turn (a : Turn)
  deriving DecidableEq

variable {Cb : Type}

def Threads.step (s : Threads Cb) : Act Cb → Option (Threads Cb × List (Event Cb))
  | .call t fill =>
    match s.call t with
    | .idle =>
      if s.loop.bRunning then some ({ s with call := update s.call t (.locking fill) }, [])
      else some (s, [.refused .stop])
    | _ => none
  | .lock t =>
    match s.call t with
    | .locking fill =>
      let (loop, es) := s.loop.submit fill
      some ({ loop, call := update s.call t .idle }, es)
    | _ => none
  | .run t =>
    match s.call t with
    | .idle => s.loop.spawn.map fun loop =>
        ({ loop, call := update s.call t .starting }, [])
    | _ => none
  | .setRunning t =>
    match s.call t with
    | .starting =>
      some ({ loop := { s.loop with bRunning := true }, call := update s.call t .idle }, [])
    | _ => none
  | .turn a => (s.loop.turn a).map fun p => ({ s with loop := p.1 }, p.2)

def Threads.Init (s : Threads Cb) : Prop :=
  ∃ garbage, s = ⟨Uvloop.create garbage, fun _ => .idle⟩

def threads (Cb : Type) : System (Threads Cb) (Act Cb) (Event Cb) :=
  ⟨Threads.Init, Threads.step⟩

def callersBehave (_ : Threads Cb) : Act Cb → Prop
  | .call _ fill => fill.Callable
  | _ => True

instance : DecidableRel (callersBehave : Threads Cb → Act Cb → Prop) := fun _ a =>
  match a with
  | .call _ (.addReq _ _) => inferInstanceAs (Decidable (_ ∧ _))
  | .call _ .stop | .lock _ | .run _ | .setRunning _ | .turn _ => .isTrue trivial

variable {s s' : Threads Cb} {a : Act Cb} {es tr : List (Event Cb)} {t x : ℕ}
  {fill : Fill Cb}

/-- The calls in progress and the loop satisfy what the loop's operations need. -/
structure Threads.Inv (s : Threads Cb) : Prop where
  loop : s.loop.Inv
  callable : ∀ t fill, s.call t = .locking fill → fill.Callable

inductive Threads.StepCases (s : Threads Cb) : Act Cb → Threads Cb → List (Event Cb) → Prop
  | called (t : ℕ) (fill : Fill Cb) : s.call t = .idle → s.loop.bRunning = true →
      StepCases s (.call t fill) { s with call := update s.call t (.locking fill) } []
  | refused (t : ℕ) (fill : Fill Cb) : s.call t = .idle → s.loop.bRunning = false →
      StepCases s (.call t fill) s [.refused .stop]
  | lock (t : ℕ) (fill : Fill Cb) : s.call t = .locking fill →
      StepCases s (.lock t)
        { loop := (s.loop.submit fill).1, call := update s.call t .idle } (s.loop.submit fill).2
  | run (t : ℕ) (loop : Uvloop Cb) : s.call t = .idle → s.loop.spawn = some loop →
      StepCases s (.run t) { loop, call := update s.call t .starting } []
  | setRunning (t : ℕ) : s.call t = .starting →
      StepCases s (.setRunning t)
        { loop := { s.loop with bRunning := true }, call := update s.call t .idle } []
  | turn (b : Turn) (loop : Uvloop Cb) (es : List (Event Cb)) : s.loop.turn b = some (loop, es) →
      StepCases s (.turn b) { s with loop } es

theorem Threads.step_cases (hs : s.step a = some (s', es)) : s.StepCases a s' es := by
  cases a with
  | call t fill =>
    simp only [step] at hs
    split at hs
    · next hc =>
      split at hs <;> obtain ⟨rfl, rfl⟩ := Prod.mk.inj (Option.some.inj hs)
      · next hr => exact .called t fill hc hr
      · next hr => exact .refused t fill hc (by simpa using hr)
    · contradiction
  | lock t =>
    simp only [step] at hs
    split at hs
    · next fill hc =>
      obtain ⟨rfl, rfl⟩ := Prod.mk.inj (Option.some.inj hs)
      exact .lock t fill hc
    · contradiction
  | run t =>
    simp only [step] at hs
    split at hs
    · next hc =>
      obtain ⟨l, hl, he⟩ := Option.map_eq_some_iff.mp hs
      obtain ⟨rfl, rfl⟩ := Prod.mk.inj he
      exact .run t l hc hl
    · contradiction
  | setRunning t =>
    simp only [step] at hs
    split at hs
    · next hc =>
      obtain ⟨rfl, rfl⟩ := Prod.mk.inj (Option.some.inj hs)
      exact .setRunning t hc
    · contradiction
  | turn b =>
    obtain ⟨⟨l, es'⟩, hl, he⟩ := Option.map_eq_some_iff.mp hs
    obtain ⟨rfl, rfl⟩ := Prod.mk.inj he
    exact .turn b l es' hl

theorem Threads.map_step_cases {σ ε : Type} {f : Threads Cb → σ} {e : Event Cb → ε} {m : σ}
    {fs : List ε} (hs : (s.step a).map (fun p => (f p.1, p.2.map e)) = some (m, fs)) :
    ∃ th les, s.step a = some (th, les) ∧ m = f th ∧ fs = les.map e := by
  obtain ⟨⟨th, les⟩, ht, he⟩ := Option.map_eq_some_iff.mp hs
  obtain ⟨rfl, rfl⟩ := Prod.mk.inj he
  exact ⟨th, les, ht, rfl, rfl⟩

def Act.thread : Act Cb → Option ℕ
  | .call t _ | .lock t | .run t | .setRunning t => some t
  | .turn _ => none

theorem Threads.call_of_ne (hs : s.step a = some (s', es)) (ht : a.thread ≠ some t) :
    s'.call t = s.call t := by
  have hne : ∀ u, a.thread = some u → t ≠ u := fun u hu e => ht (e ▸ hu)
  cases step_cases hs with
  | called u | lock u | run u | setRunning u => exact update_of_ne (hne u rfl) ..
  | refused | turn => rfl

theorem Threads.step_call (hs : s.step a = some (s', es)) (hc : s'.call t = .locking fill) :
    s.call t = .locking fill ∨ a = .call t fill := by
  by_cases ht : a.thread = some t
  · cases step_cases hs with
    | called u f =>
      obtain rfl := Option.some.inj ht
      have hf : f = fill := by simpa using hc
      exact .inr (by rw [hf])
    | lock u | run u | setRunning u =>
      obtain rfl := Option.some.inj ht
      simp at hc
    | refused => exact .inl hc
    | turn => cases ht
  · exact .inl ((call_of_ne hs ht).symm.trans hc)

/-- A request that a submission puts on a handle is the one submitted, and the handle is the
first free one. -/
theorem tcb_of_submit {l : Uvloop Cb} {cb : Cb} {h : ℕ}
    (hx : ((l.submit fill).1.async h).tcb = some cb) :
    (l.async h).tcb = some cb ∨
      ∃ e, fill = .addReq e (some cb) ∧ l.dAsync.head? = some h := by
  rcases submit_cases l fill with ⟨-, he⟩ | ⟨x, l', htake, he⟩
  · exact .inl (by simpa [he] using hx)
  · rw [he, (takeAsync_cases htake).2] at hx
    rcases eq_or_ne h x with rfl | hhx
    · cases fill with
      | addReq e c =>
        obtain rfl : c = some cb := by simpa [Fill.apply] using hx
        exact .inr ⟨e, rfl, head_of_takeAsync htake⟩
      | stop => exact .inl (by simpa [Fill.apply] using hx)
    · exact .inl (by simpa [hhx] using hx)

/-- No step makes a request: what is on a handle was there, or with a thread that was waiting
for the lock. -/
theorem Threads.tcb_of_step {cb : Cb} {h : ℕ} (hs : s.step a = some (s', es))
    (hx : (s'.loop.async h).tcb = some cb) : (s.loop.async h).tcb = some cb ∨
      ∃ t e, a = .lock t ∧ s.call t = .locking (.addReq e (some cb)) ∧
        s.loop.dAsync.head? = some h := by
  cases step_cases hs with
  | called | refused | setRunning => exact .inl hx
  | run t loop _ hsp =>
    rw [(spawn_cases hsp).2.2] at hx
    exact .inl hx
  | lock t fill hfill =>
    rcases tcb_of_submit hx with hx | ⟨e, rfl, hd⟩
    · exact .inl hx
    · exact .inr ⟨t, e, rfl, hfill, hd⟩
  | turn b loop es ht => exact .inl (tcb_of_turn ht hx)

theorem Threads.busy (hs : s.step a = some (s', es)) (ha : a = .lock t ∨ a = .setRunning t) :
    s.call t ≠ .idle := by
  intro hc
  obtain rfl | rfl := ha <;> simp [step, hc] at hs

theorem Threads.lock_cases (hs : s.step (.lock t) = some (s', es)) :
    ∃ fill, s.call t = .locking fill ∧ s'.call = update s.call t .idle ∧
      s.loop.submit fill = (s'.loop, es) := by
  cases step_cases hs with
  | lock _ fill hc => exact ⟨fill, hc, rfl, rfl⟩

theorem Threads.turn_cases {b : Turn} (hs : s.step (.turn b) = some (s', es)) :
    s'.call = s.call ∧ s.loop.turn b = some (s'.loop, es) := by
  cases step_cases hs with
  | turn _ loop es ht => exact ⟨rfl, ht⟩

theorem Threads.carries_of_quiet (hs : s.step a = some (s', es)) (hl : ∀ t, a ≠ .lock t)
    (ht : ∀ b, a ≠ .turn b) : s'.loop.carries = s.loop.carries := by
  cases step_cases hs with
  | called | refused | setRunning => rfl
  | lock t => exact (hl t rfl).elim
  | turn b => exact (ht b rfl).elim
  | run t loop _ hsp =>
    rw [(spawn_cases hsp).2.2]
    rfl

theorem Threads.Inv.step (hi : s.Inv) (hg : callersBehave s a)
    (hs : s.step a = some (s', es)) : s'.Inv := by
  constructor
  · cases step_cases hs with
    | called | refused => exact hi.loop
    | lock t fill hc => exact hi.loop.submit (hi.callable t fill hc)
    | run t loop _ hsp => exact hi.loop.spawn hsp
    | setRunning => exact hi.loop.setRunning true
    | turn b loop es ht => exact hi.loop.turn ht
  · intro t fill hc
    rcases step_call hs hc with hc | rfl
    · exact hi.callable t fill hc
    · exact hg

theorem Threads.inv_of_reach (h : (threads Cb).Reach callersBehave tr s) : s.Inv := by
  refine h.stateInvariant ?_ fun _ s a s' es _ hi hg hs => hi.step hg hs
  rintro s ⟨garbage, rfl⟩
  exact ⟨create_inv garbage, nofun⟩

theorem Threads.Inv.balanced (hi : s.Inv) (hs : s.step a = some (s', es)) :
    s.loop.Balanced es s'.loop := by
  cases step_cases hs with
  | called | refused | setRunning =>
    exact .of_pending (fun _ => rfl) (by simp [acceptedOn]) (by simp [ranOn])
  | lock t fill => exact hi.loop.balanced_submit fill
  | run t loop _ hsp =>
    obtain ⟨-, -, rfl⟩ := spawn_cases hsp
    exact .of_pending (fun _ => rfl) (by simp) (by simp)
  | turn b loop es ht => exact hi.loop.balanced_turn ht

/-- Every request accepted on a handle has been run on it, in the order of acceptance,
or waits there. -/
theorem Threads.conserved (h : (threads Cb).Reach callersBehave tr s) (x : ℕ) :
    tr.filterMap (acceptedOn x) = tr.filterMap (ranOn x) ++ (s.loop.pending x).toList := by
  refine h.invariant
    (I := fun tr s => Passes (acceptedOn x) (ranOn x) [] tr (s.loop.pending x).toList) ?_ ?_
  · rintro s ⟨garbage, rfl⟩
    rfl
  · intro tr s a s' es hr hI hg hs
    exact hI.trans ((inv_of_reach hr).balanced hs x)

/-- No request in progress is written to, except that the loop clears the callback of
the one it has run. -/
theorem Threads.Inv.async_kept (hi : s.Inv) (hs : s.step a = some (s', es))
    (hx : x ∈ s.loop.mapAsync) :
    s'.loop.async x = s.loop.async x ∨
      ∃ b, a = .turn b ∧ s'.loop.position = .ran x ∧
        s'.loop.async x = { s.loop.async x with tcb := none } := by
  cases step_cases hs with
  | called | refused | setRunning => exact .inl rfl
  | lock t fill =>
    refine .inl ?_
    rcases submit_cases s.loop fill with ⟨-, he⟩ | ⟨h, l', ht, he⟩
    · rw [he]
    · rw [he]
      have hxh : x ≠ h := fun e =>
        hi.loop.not_inUse_of_take ht ((hi.loop.inUse h).mp (e ▸ hx))
      exact takeAsync_async_of_ne ht hxh
  | run t loop _ hsp => exact .inl (by rw [(spawn_cases hsp).2.2])
  | turn b loop es ht => exact (hi.loop.turn_async ht x).imp id fun h => ⟨b, rfl, h⟩

theorem Threads.Inv.asyncSend (hi : s.Inv) (hs : s.step a = some (s', es))
    (hx : .asyncSend x ∈ es) : ¬ s.loop.InUse x := by
  cases step_cases hs with
  | called | refused | run | setRunning => simp at hx
  | lock t fill =>
    rcases submit_cases s.loop fill with ⟨-, he⟩ | ⟨h, l', ht, he⟩
    · simp [he] at hx
    · obtain rfl : x = h := by simpa [he] using hx
      exact hi.loop.not_inUse_of_take ht
  | turn b loop es ht =>
    rcases (hi.loop.turn_cases ht).events with rfl | ⟨h, rfl⟩ | ⟨h, rfl⟩ <;> simp at hx

/-- The loop neither calls an empty `tcb` nor dereferences `end()`. -/
theorem Threads.Inv.no_fault (hi : s.Inv) (hs : s.step a = some (s', es)) :
    .badFunctionCall x ∉ es ∧ .derefEnd x ∉ es := by
  cases step_cases hs with
  | called | refused | run | setRunning => simp
  | lock t fill =>
    rcases submit_cases s.loop fill with ⟨-, he⟩ | ⟨h, l', -, he⟩ <;> simp [he]
  | turn b loop es ht =>
    rcases (hi.loop.turn_cases ht).events with rfl | ⟨h, rfl⟩ | ⟨h, rfl⟩ <;> simp

structure Exact (tr : List (Event Cb)) (s : Threads Cb) : Prop where
  /-- No handle is in the deque twice, or in the deque and the map. -/
  nodup : s.loop.dAsync.Nodup
  disjoint : ∀ x, ¬ (x ∈ s.loop.dAsync ∧ x ∈ s.loop.mapAsync)
  /-- The handles of the constructor are those in the deque or the map. -/
  all : ∀ x, x < asyncHandles ↔ x ∈ s.loop.dAsync ∨ x ∈ s.loop.mapAsync
  /-- The map holds those that are signalled or being run. -/
  inUse : ∀ x, x ∈ s.loop.mapAsync ↔
    s.loop.signalled x = true ∨ s.loop.position = .running x ∨ s.loop.position = .ran x
  /-- No step writes to a handle in the map, except that the loop thread clears the
  callback that it has run. -/
  kept : ∀ a s' es, s.step a = some (s', es) → ∀ x ∈ s.loop.mapAsync,
    s'.loop.async x = s.loop.async x ∨
      ∃ b, a = .turn b ∧ s'.loop.position = .ran x ∧
        s'.loop.async x = { s.loop.async x with tcb := none }
  /-- No step signals a handle that is signalled or being run. -/
  sent : ∀ a s' es, s.step a = some (s', es) → ∀ x, .asyncSend x ∈ es →
    s.loop.signalled x = false ∧ x ∉ s.loop.mapAsync
  /-- On each handle the requests run are those accepted, in order, but for one that is
  still signalled. -/
  conserved : ∀ x, tr.filterMap (acceptedOn x) = tr.filterMap (ranOn x) ++
    (if s.loop.signalled x then [s.loop.async x] else [])
  /-- No callback was missing, and no handle was missing from the map. -/
  sound : ∀ x, .badFunctionCall x ∉ tr ∧ .derefEnd x ∉ tr

theorem Position.handle_eq {p : Position} :
    p.handle = some x ↔ p = .running x ∨ p = .ran x := by
  cases p <;> simp [Position.handle]

/-- In every state that any interleaving of submitting threads and the loop thread can
reach, the pool of handles is exact and no accepted request is lost, mixed up or run
twice. -/
theorem exact_of_reach (h : (threads Cb).Reach callersBehave tr s) : Exact tr s := by
  have hi := Threads.inv_of_reach h
  constructor
  case nodup => exact hi.loop.wellFormed.nodup
  case disjoint => exact fun x hx => hi.loop.wellFormed.disjoint x hx.1 hx.2
  case all => exact fun x => (hi.loop.knows x).symm
  case inUse =>
    intro x
    rw [hi.loop.inUse x, InUse, Position.handle_eq]
  case kept => exact fun a s' es hs x => hi.async_kept hs
  case sent =>
    intro a s' es hs x hx
    have hu := hi.asyncSend hs hx
    exact ⟨by simpa using fun e => hu (.inl e), fun hm => hu ((hi.loop.inUse x).mp hm)⟩
  case conserved =>
    intro x
    rw [Threads.conserved h x, pending]
    split <;> rfl
  case sound =>
    intro x
    refine h.invariant (I := fun tr _ => .badFunctionCall x ∉ tr ∧ .derefEnd x ∉ tr) ?_ ?_
    · simp
    · intro tr s a s' es hr hI hg hs
      have := (Threads.inv_of_reach hr).no_fault (x := x) hs
      simp only [List.mem_append, not_or]
      exact ⟨⟨hI.1, this.1⟩, hI.2, this.2⟩

/-- A run in which one thread submits a request while the callback of another runs. -/
theorem exact_of_reach_example :
    ∃ tr s, (threads ℕ).Reach callersBehave tr s ∧ s.loop.position = .running 0 ∧
      tr.filterMap (ranOn 0) = [⟨.tcpWrite, some 7⟩] ∧ Exact tr s := by
  obtain ⟨tr, s, hr, hp⟩ := System.exists_run_of_exec (M := threads ℕ) (G := callersBehave)
    (s := ⟨Uvloop.create fun _ => .loopStop, fun _ => .idle⟩)
    [.run 1, .setRunning 1, .call 1 (.addReq .tcpWrite (some 7)), .lock 1,
      .turn (.fire 0), .call 0 (.addReq .tcpClose (some 8)), .lock 0]
    (p := fun s tr => decide (s.loop.position = .running 0 ∧
      tr.filterMap (ranOn 0) = [⟨.tcpWrite, some 7⟩])) (by decide +kernel)
  have h : (threads ℕ).Reach callersBehave tr s := ⟨_, ⟨_, rfl⟩, hr⟩
  exact ⟨tr, s, h, (of_decide_eq_true hp).1, (of_decide_eq_true hp).2, exact_of_reach h⟩

end UvWrapper.Uvloop
