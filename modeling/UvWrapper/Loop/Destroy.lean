import UvWrapper.Loop.Threads

/-! # Destroying a loop

`~uvloop` asks the loop to stop and waits for the loop thread, which clears `m_bRunning` and
then notifies without taking the lock that the waiter holds. The destructor is cut where the
loop thread can come in between: inside `stop`, before and after each test of the predicate,
and where it is blocked.
-/

namespace UvWrapper.Uvloop

open Function Transition

variable {Cb : Type}

/-- Where the destructor stands: not called; in `stop` between the test of `m_bRunning` and the
lock; about to test the predicate of `m_StopRunNotify.wait`; past that test, which has read
`m_bRunning` as true; blocked; through. -/
inductive Dtor | absent | locking | testing | tested | waiting | done
  deriving DecidableEq, Repr

/-- A loop with its threads and its destructor. `notifying` counts the loop threads that have
cleared `m_bRunning` and not yet called `notify_all`. -/
structure Dying (Cb : Type) where
  threads : Threads Cb
  dtor : Dtor
  notifying : ℕ

namespace Dying

/-- The steps of the threads, those of the destructor, with a wake-up that nothing has caused
among them, and the call of `notify_all`. -/
inductive Act (Cb : Type)
  | thread (a : Uvloop.Act Cb)
  | destroy | lock | test | block | wake
  | notify
  deriving DecidableEq

/-- The loop thread clears `m_bRunning`, behind which it notifies. -/
def clears : Uvloop.Act Cb → Bool
  | .turn .clearRunning => true
  | _ => false

def step (s : Dying Cb) : Act Cb → Option (Dying Cb × List (Event Cb))
  | .thread a => (s.threads.step a).map fun p =>
      ({ s with threads := p.1, notifying := s.notifying + (clears a).toNat }, p.2)
  | .destroy =>
    match s.dtor with
    | .absent => some ({ s with
        dtor := if s.threads.loop.bRunning then .locking else .testing }, [])
    | _ => none
  | .lock =>
    match s.dtor with
    | .locking =>
      let (loop, es) := s.threads.loop.submit .stop
      some ({ s with threads := { s.threads with loop }, dtor := .testing }, es)
    | _ => none
  | .test =>
    match s.dtor with
    | .testing => some ({ s with
        dtor := if s.threads.loop.bRunning then .tested else .done }, [])
    | _ => none
  | .block =>
    match s.dtor with
    | .tested => some ({ s with dtor := .waiting }, [])
    | _ => none
  | .wake =>
    match s.dtor with
    | .waiting => some ({ s with dtor := .testing }, [])
    | _ => none
  | .notify =>
    if 0 < s.notifying then
      some ({ s with
        dtor := if s.dtor = .waiting then .testing else s.dtor
        notifying := s.notifying - 1 }, [])
    else none

def Init (s : Dying Cb) : Prop := ∃ th, Threads.Init th ∧ s = ⟨th, .absent, 0⟩

end Dying

def dying (Cb : Type) : System (Dying Cb) (Dying.Act Cb) (Event Cb) := ⟨Dying.Init, Dying.step⟩

namespace Dying

variable {s s' : Dying Cb} {a : Act Cb} {b : Uvloop.Act Cb} {es tr : List (Event Cb)}
  {x : ℕ} {l l' : Uvloop Cb} {fill : Fill Cb} {G : Dying Cb → Act Cb → Prop}

def StopUnderWay (l : Uvloop Cb) : Prop :=
  (∃ x, l.signalled x = true ∧ (l.async x).eEvent = .loopStop) ∨ l.stopFlag = true ∨
    l.position = .left ∨ l.position = .down

/-- A loop thread is in `uv_run` or on its way from there to `notify_all`. -/
def Alive (s : Dying Cb) : Prop := s.threads.loop.position ≠ .down ∨ 0 < s.notifying

/-- A stop is under way and the loop thread has not yet executed `notify_all`. -/
def WakeUpDue (s : Dying Cb) : Prop := s.Alive ∧ StopUnderWay s.threads.loop

/-- The callers behave, and nobody is inside `run` while the loop is being destroyed. -/
def undisturbed (s : Dying Cb) : Act Cb → Prop
  | .thread (.call t fill) => callersBehave s.threads (.call t fill)
  | .thread (.run _) | .thread (.setRunning _) => s.dtor = .absent
  | _ => True

instance : DecidableRel (undisturbed : Dying Cb → Act Cb → Prop) := fun s a =>
  match a with
  | .thread (.call t fill) => inferInstanceAs (Decidable (callersBehave s.threads (.call t fill)))
  | .thread (.run _) | .thread (.setRunning _) => inferInstanceAs (Decidable (_ = _))
  | .thread (.lock _) | .thread (.turn _) | .destroy | .lock | .test | .block | .wake
  | .notify => .isTrue trivial

/-- In the runs whose steps satisfy `G` a destructor that is blocked has a wake-up to come. -/
def NeverStuck (G : Dying Cb → Act Cb → Prop) : Prop :=
  ∀ tr s, (dying Cb).Reach (fun s a => undisturbed s a ∧ G s a) tr s → s.dtor = .waiting →
    s.WakeUpDue

/-- A destructor that finds no handle for its stop has a wake-up to come all the same, or finds
`m_bRunning` cleared; its test reads `m_bRunning` as true only of a loop thread that is alive;
and the last loop thread does not notify between that test and the wait. -/
def wakes (s : Dying Cb) : Act Cb → Prop
  | .lock => s.threads.loop.dAsync = [] → s.threads.loop.bRunning = true → s.WakeUpDue
  | .test => s.threads.loop.bRunning = true → s.Alive
  | .notify => s.dtor = .tested → s.threads.loop.position ≠ .down ∨ 1 < s.notifying
  | _ => True

/-! ## One step -/

/-- The loop thread brings a stop that is under way to its end. -/
theorem StopUnderWay.turn (h : StopUnderWay l) (hi : l.Inv) {a : Turn}
    (ht : l.turn a = some (l', es)) : StopUnderWay l' := by
  cases hi.turn_cases ht with
  | fireStop => exact .inr (.inl rfl)
  | leave => exact .inr (.inr (.inl rfl))
  | clearRunning => exact .inr (.inr (.inr rfl))
  | fire y cb hp hs he =>
    rcases h with ⟨x, hx, hex⟩ | h | h | h
    · have hxy : x ≠ y := fun e => he (e ▸ hex)
      exact .inl ⟨x, (update_of_ne hxy ..).trans hx, hex⟩
    · exact .inr (.inl h)
    · cases hp.symm.trans h
    · cases hp.symm.trans h
  | tcbReturn y hp =>
    rcases h with ⟨x, hx, hex⟩ | h | h | h
    · have he : (update l.async y { l.async y with tcb := none } x).eEvent = (l.async x).eEvent :=
        Update.apply_update_of_eq (g := fun st : StAsync Cb => st.eEvent) rfl
      exact .inl ⟨x, hx, he.trans hex⟩
    · exact .inr (.inl h)
    · cases hp.symm.trans h
    · cases hp.symm.trans h
  | recycle y hp | skip hp | newPass hp =>
    rcases h with h | h | h | h
    · exact .inl h
    · exact .inr (.inl h)
    · cases hp.symm.trans h
    · cases hp.symm.trans h

theorem StopUnderWay.submit (h : StopUnderWay l) (hi : l.Inv) :
    StopUnderWay (l.submit fill).1 := by
  rcases submit_cases l fill with ⟨-, he⟩ | ⟨y, l', ht, he⟩
  · rw [he]
    exact h
  · rw [he]
    have hl := (takeAsync_cases ht).2
    rcases h with ⟨x, hx, hex⟩ | h | h
    · have hxy : x ≠ y := fun e => hi.not_inUse_of_take ht (.inl (e ▸ hx))
      refine .inl ⟨x, ?_, ?_⟩
      · rw [hl]
        exact (update_of_ne hxy ..).trans hx
      · rwa [takeAsync_async_of_ne ht hxy]
    · exact .inr (.inl (by rw [hl]; exact h))
    · exact .inr (.inr (by rw [hl]; exact h))

/-- What a step of the other threads or of the loop thread does while the loop is being
destroyed. -/
structure ThreadFrame (s s' : Dying Cb) : Prop where
  dtor : s'.dtor = s.dtor
  running : s'.threads.loop.bRunning = true → s.threads.loop.bRunning = true
  alive : s'.Alive ↔ s.Alive
  stop : StopUnderWay s.threads.loop → StopUnderWay s'.threads.loop

inductive StepCases (s : Dying Cb) : Act Cb → Dying Cb → List (Event Cb) → Prop
  | thread (a : Uvloop.Act Cb) (th : Threads Cb) (es : List (Event Cb)) :
      s.threads.step a = some (th, es) →
      StepCases s (.thread a)
        { s with threads := th, notifying := s.notifying + (clears a).toNat } es
  | destroy : s.dtor = .absent → StepCases s .destroy
      { s with dtor := if s.threads.loop.bRunning then .locking else .testing } []
  | lock : s.dtor = .locking → StepCases s .lock
      { s with
        threads := { s.threads with loop := (s.threads.loop.submit .stop).1 }
        dtor := .testing } (s.threads.loop.submit .stop).2
  | test : s.dtor = .testing → StepCases s .test
      { s with dtor := if s.threads.loop.bRunning then .tested else .done } []
  | block : s.dtor = .tested → StepCases s .block { s with dtor := .waiting } []
  | wake : s.dtor = .waiting → StepCases s .wake { s with dtor := .testing } []
  | notify : 0 < s.notifying → StepCases s .notify
      { s with
        dtor := if s.dtor = .waiting then .testing else s.dtor
        notifying := s.notifying - 1 } []

theorem step_cases (hs : s.step a = some (s', es)) : s.StepCases a s' es := by
  cases a with
  | thread a =>
    obtain ⟨⟨th, es'⟩, ht, he⟩ := Option.map_eq_some_iff.mp hs
    obtain ⟨rfl, rfl⟩ := Prod.mk.inj he
    exact .thread a th es' ht
  | notify =>
    simp only [step] at hs
    split at hs
    · next hn =>
      obtain ⟨rfl, rfl⟩ := Prod.mk.inj (Option.some.inj hs)
      exact .notify hn
    · contradiction
  | destroy | lock | test | block | wake =>
    simp only [step] at hs
    split at hs
    · next hd =>
      obtain ⟨rfl, rfl⟩ := Prod.mk.inj (Option.some.inj hs)
      constructor
      exact hd
    · contradiction

theorem threadFrame (hi : s.threads.Inv) {th : Threads Cb}
    (ht : s.threads.step b = some (th, es)) (hrun : ∀ t, b ≠ .run t)
    (hset : ∀ t, b ≠ .setRunning t) :
    ThreadFrame s { s with threads := th, notifying := s.notifying + (clears b).toNat } := by
  cases Threads.step_cases ht with
  | called | refused => exact ⟨rfl, id, by simp [Alive, clears], id⟩
  | lock t fill =>
    refine ⟨rfl, ?_, ?_, fun h => h.submit hi.loop⟩
    · rcases submit_cases s.threads.loop fill with ⟨-, he⟩ | ⟨y, l', htake, he⟩
      · rw [he]
        exact id
      · rw [he, (takeAsync_cases htake).2]
        exact id
    · rcases submit_cases s.threads.loop fill with ⟨-, he⟩ | ⟨y, l', htake, he⟩
      · simp [Alive, clears, he]
      · rw [he, (takeAsync_cases htake).2]
        simp [Alive, clears]
  | run t => exact (hrun t rfl).elim
  | setRunning t => exact (hset t rfl).elim
  | turn c loop es hturn =>
    have hstop := fun h : StopUnderWay s.threads.loop => h.turn hi.loop hturn
    cases hi.loop.turn_cases hturn with
    | clearRunning hp => exact ⟨rfl, nofun, by simp [Alive, clears, hp], hstop⟩
    | fireStop _ hp | fire _ _ hp | tcbReturn _ hp | recycle _ hp | skip hp | newPass hp
    | leave hp => exact ⟨rfl, id, by simp [Alive, clears, hp], hstop⟩

theorem undisturbed.callersBehave (h : undisturbed s (.thread b)) :
    callersBehave s.threads b := by
  cases b with
  | call => exact h
  | _ => trivial

theorem threadsInv_of_reach (h : (dying Cb).Reach undisturbed tr s) : s.threads.Inv := by
  refine h.stateInvariant (I := fun s => s.threads.Inv) ?_ fun tr s a s' es _ hi hu hs => ?_
  · rintro s ⟨th, ⟨garbage, rfl⟩, rfl⟩
    exact ⟨create_inv garbage, nofun⟩
  · cases step_cases hs with
    | thread b th es ht => exact hi.step hu.callersBehave ht
    | lock =>
      have hstop : (Fill.stop : Fill Cb).Callable := trivial
      exact ⟨hi.loop.submit hstop, hi.callable⟩
    | destroy | test | block | wake | notify => exact hi

/-- A wake-up is due to a destructor that is blocked or about to be, and one that will test the
predicate of a loop that runs has its stop under way. -/
structure Inv (s : Dying Cb) : Prop where
  testing : s.dtor = .testing → s.threads.loop.bRunning = true → s.Alive →
    StopUnderWay s.threads.loop
  due : s.dtor = .tested ∨ s.dtor = .waiting → s.WakeUpDue

theorem Inv.thread (hi : s.Inv) (hth : s.threads.Inv) {th : Threads Cb}
    (hu : undisturbed s (.thread b)) (ht : s.threads.step b = some (th, es)) :
    Inv { s with threads := th, notifying := s.notifying + (clears b).toNat } := by
  by_cases hd : s.dtor = .absent
  · constructor
    · intro h
      cases hd.symm.trans h
    · rintro (h | h) <;> cases hd.symm.trans h
  · have hrun : ∀ t, b ≠ .run t := by
      rintro t rfl
      exact hd hu
    have hset : ∀ t, b ≠ .setRunning t := by
      rintro t rfl
      exact hd hu
    have hf := threadFrame hth ht hrun hset
    constructor
    · intro h hr ha
      exact hf.stop (hi.testing h (hf.running hr) (hf.alive.mp ha))
    · intro h
      obtain ⟨ha, hstop⟩ := hi.due h
      exact ⟨hf.alive.mpr ha, hf.stop hstop⟩

theorem Inv.lock (hw : wakes s .lock) : Inv { s with
    threads := { s.threads with loop := (s.threads.loop.submit .stop).1 }
    dtor := .testing } := by
  refine ⟨fun _ hr _ => ?_, nofun⟩
  rcases submit_cases s.threads.loop .stop with ⟨hempty, he⟩ | ⟨y, l', ht, he⟩
  · simp only [he] at hr ⊢
    exact (hw hempty hr).2
  · rw [he]
    refine .inl ⟨y, ?_, ?_⟩
    · rw [(takeAsync_cases ht).2]
      exact update_self ..
    · rw [(takeAsync_cases ht).2]
      simp [Fill.apply]

theorem Inv.step (hi : s.Inv) (hth : s.threads.Inv) (hu : undisturbed s a) (hw : wakes s a)
    (hs : s.step a = some (s', es)) : s'.Inv := by
  cases step_cases hs with
  | thread b th es ht => exact hi.thread hth hu ht
  | destroy hd =>
    cases hr : s.threads.loop.bRunning with
    | true => exact ⟨nofun, nofun⟩
    | false => exact ⟨fun _ hr' => (by cases hr.symm.trans hr'), nofun⟩
  | lock => exact .lock hw
  | test hd =>
    cases hr : s.threads.loop.bRunning with
    | true => exact ⟨nofun, fun _ => ⟨hw hr, hi.testing hd hr (hw hr)⟩⟩
    | false => exact ⟨nofun, nofun⟩
  | block hd => exact ⟨nofun, fun _ => hi.due (.inl hd)⟩
  | wake hd => exact ⟨fun _ _ _ => (hi.due (.inr hd)).2, nofun⟩
  | notify =>
    have hbefore : ∀ {d : Dtor}, Alive { s with dtor := d, notifying := s.notifying - 1 } →
        s.Alive := fun h => h.imp_right fun hn => Nat.lt_of_lt_of_le hn (Nat.sub_le _ _)
    constructor
    · intro hd hr ha
      split at hd
      · next h => exact (hi.due (.inr h)).2
      · exact hi.testing hd hr (hbefore ha)
    · intro hd
      split at hd
      · rcases hd with hd | hd <;> cases hd
      · next h =>
        have ht : s.dtor = .tested := hd.resolve_right h
        exact ⟨(hw ht).imp_right Nat.sub_pos_of_lt, (hi.due (.inl ht)).2⟩

/-! ## Whole runs -/

theorem inv_of_wakes (hw : (dying Cb).Always (fun s a => undisturbed s a ∧ G s a) wakes)
    (h : (dying Cb).Reach (fun s a => undisturbed s a ∧ G s a) tr s) : s.Inv := by
  refine h.stateInvariant ?_ fun tr s a s' es hr hi hg hs =>
    hi.step (threadsInv_of_reach (hr.mono fun _ _ hg => hg.1)) hg.1
      (hw tr s a s' es hr hg hs) hs
  rintro s ⟨th, -, rfl⟩
  exact ⟨nofun, nofun⟩

/-- A destructor that reads `m_bRunning` as true goes on to the wait. -/
theorem NeverStuck.due (hn : NeverStuck G) (hG : ∀ s, G s .test ∧ G s .block)
    (h : (dying Cb).Reach (fun s a => undisturbed s a ∧ G s a) tr s)
    (hd : s.dtor = .testing ∧ s.threads.loop.bRunning = true ∨ s.dtor = .tested) :
    s.WakeUpDue := by
  have hblock : ∀ {tr : List (Event Cb)} {s : Dying Cb},
      (dying Cb).Reach (fun s a => undisturbed s a ∧ G s a) tr s → s.dtor = .tested →
      s.WakeUpDue := by
    intro tr s h hd
    have hs : (dying Cb).step s .block = some ({ s with dtor := .waiting }, []) := by
      simp only [dying, Dying.step, hd]
    have hg : undisturbed s .block ∧ G s .block := ⟨trivial, (hG s).2⟩
    have hdue := hn _ _ (h.step hg hs) rfl
    exact hdue
  rcases hd with ⟨hd, hr⟩ | hd
  · have hs : (dying Cb).step s .test = some ({ s with dtor := .tested }, []) := by
      simp only [dying, Dying.step, hd, hr, if_true]
    have hg : undisturbed s .test ∧ G s .test := ⟨trivial, (hG s).1⟩
    have hdue := hblock (h.step hg hs) rfl
    exact hdue
  · exact hblock h hd

/-- A destructor is never blocked without a wake-up to come in the runs of `G` if each of their
steps meets the condition; and where the destructor may always go on to its wait, only then. -/
theorem neverStuck_iff (G : Dying Cb → Act Cb → Prop) :
    ((dying Cb).Always (fun s a => undisturbed s a ∧ G s a) wakes → NeverStuck G) ∧
      ((∀ s, G s .test ∧ G s .block) → NeverStuck G →
        (dying Cb).Always (fun s a => undisturbed s a ∧ G s a) wakes) := by
  constructor
  · intro hw tr s h hd
    exact (inv_of_wakes hw h).due (.inr hd)
  · intro hG hn tr s a s' es h hg hs
    cases a with
    | lock =>
      intro hempty hr
      have h' := h.step hg hs
      have hc : s.StepCases .lock s' es := step_cases hs
      cases hc with
      | lock =>
        have he : s.threads.loop.submit .stop = (s.threads.loop, [.refused .busy]) := by
          simp [submit, takeAsync, hempty]
        simp only [he] at h'
        have hdue := hn.due hG h' (.inl ⟨rfl, hr⟩)
        exact hdue
    | test =>
      intro hr
      have hc : s.StepCases .test s' es := step_cases hs
      cases hc with
      | test hd => exact (hn.due hG h (.inl ⟨hd, hr⟩)).1
    | notify =>
      intro hd
      have h' := h.step hg hs
      have hc : s.StepCases .notify s' es := step_cases hs
      cases hc with
      | notify =>
        have hdue := hn.due hG h' (.inr (by simp [hd]))
        exact hdue.1.imp_right Nat.lt_of_sub_pos
    | thread | destroy | block | wake => trivial

def fills : List (Act ℕ) :=
  [.thread (.run 1), .thread (.setRunning 1)] ++
    (List.range 5).flatMap fun i =>
      [.thread (.call 1 (.addReq .tcpWrite (some i))), .thread (.lock 1)]

/-- Five requests wait, the destructor's `stop` finds no handle, and the destructor waits for a
loop thread that nobody has asked to stop. -/
theorem not_neverStuck : ¬ NeverStuck (anyStep (Dying ℕ) (Act ℕ)) := by
  intro hn
  obtain ⟨tr, s, hr, hp⟩ := System.exists_run_of_exec (M := dying ℕ)
    (G := fun s a => undisturbed s a ∧ anyStep (Dying ℕ) (Act ℕ) s a)
    (s := ⟨⟨Uvloop.create fun _ => .loopStop, fun _ => .idle⟩, .absent, 0⟩)
    (fills ++ [.destroy, .lock, .test, .block])
    (p := fun s _ => decide (s.dtor = .waiting ∧ s.threads.loop.position = .polling ∧
      s.threads.loop.stopFlag = false ∧
      ∀ x < asyncHandles, (s.threads.loop.async x).eEvent = .tcpWrite)) (by decide +kernel)
  obtain ⟨hd, hpos, hflag, hev⟩ := of_decide_eq_true hp
  have h : (dying ℕ).Reach (fun s a => undisturbed s a ∧ anyStep (Dying ℕ) (Act ℕ) s a) tr s :=
    ⟨_, ⟨_, ⟨_, rfl⟩, rfl⟩, hr⟩
  rcases (hn tr s h hd).2 with ⟨x, hx, hex⟩ | hs | hs | hs
  · have hth := threadsInv_of_reach (h.mono fun _ _ hg => hg.1)
    have hw := hev x (hth.loop.lt_of_signalled hx)
    cases hw.symm.trans hex
  · cases hflag.symm.trans hs
  · cases hpos.symm.trans hs
  · cases hpos.symm.trans hs

end Dying

end UvWrapper.Uvloop
