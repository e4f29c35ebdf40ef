import UvWrapper.Host.Basic
import UvWrapper.Connect.Moves

/-! # Inversion of the steps of a shared loop

What each label does, what a step of one connection by itself can touch, and where the
threads are: a thread is in a call of one connection, of another user or of the loop, and
never in two of them.
-/

namespace UvWrapper.Host

open Function Transition Uvloop

variable {w i j h t : ℕ} {s s' : Host} {a : Act} {es : List Event} {u u' : Uvconnect}
  {b : Uvconnect.Act} {fs : List Uvconnect.Event} {th : Threads Task}
  {les : List (Uvloop.Event Task)}

/-! ## The steps -/

/-- The labels that are steps of the loop and its threads and nothing else, with what they
are to a connection. -/
inductive LoopAct (s : Host) : Act → Uvloop.Act Task → Uvconnect.Act → Prop
  | run (t : ℕ) : s.Idle t → LoopAct s (.run t) (.run t) (.run t)
  | setRunning (t : ℕ) : LoopAct s (.setRunning t) (.setRunning t) (.setRunning t)
  | stop (t : ℕ) : s.Idle t → LoopAct s (.stop t) (.call t .stop) (.stop t)

inductive StepCases (w : ℕ) (s : Host) : Act → Host → List Event → Prop
  | conn (i : ℕ) (b : Uvconnect.Act) (u : Uvconnect) (fs : List Uvconnect.Event) :
      owned b = true → (∀ t ∈ enters b, s.Idle t) → (s.view i).step w b = some (u, fs) →
      StepCases w s (.conn i b) (s.put i (caller b) (u, fs)).1 (fs.map (.conn i))
  | closeCb (i h : ℕ) : s.threads.loop.position = .polling → (s.conn i).tcp h = .closing →
      StepCases w s (.closeCb i h) (s.closed i h).1 (s.closed i h).2
  | loop (a : Act) (b : Uvloop.Act Task) (c : Uvconnect.Act) (th : Threads Task)
      (les : List (Uvloop.Event Task)) : LoopAct s a b c → s.threads.step b = some (th, les) →
      StepCases w s a { s with threads := th } (les.map .loop)
  | request (t : ℕ) (e : EType) (id : ℕ) : s.Idle t →
      StepCases w s (.request t e id) { s with call := update s.call t (.other e id) } []
  | addReqFault (t i : ℕ) (task : Task) : (s.call t).task = some task →
      s.unregistered task = some i →
      StepCases w s (.addReq t) { s with crashed := some i } [.conn i .fault]
  | addReq (t : ℕ) (task : Task) (th : Threads Task) (les : List (Uvloop.Event Task)) :
      (s.call t).task = some task → s.unregistered task = none →
      s.threads.step (.call t (.addReq task.eType (some task))) = some (th, les) →
      StepCases w s (.addReq t) { s with threads := th, call := update s.call t .idle }
        (les.map .loop ++ if s.threads.loop.bRunning then [] else [.returned t task .stop])
  | lock (t : ℕ) (th : Threads Task) (les : List (Uvloop.Event Task)) :
      s.threads.step (.lock t) = some (th, les) →
      StepCases w s (.lock t) { s with threads := th } (les.map .loop ++ s.lockResult t)
  | turn (b : Turn) (th : Threads Task) (les : List (Uvloop.Event Task)) :
      s.threads.step (.turn b) = some (th, les) → ¬ (b = .tcbReturn ∧ s.body.isSome) →
      StepCases w s (.turn b)
        { s with threads := th, body := s.nextBody b th.loop.position } (les.map .loop)
  | perform (task : Task) (err : ℤ) : s.body = some task →
      StepCases w s (.perform err) ({ s with body := none }.perform task err).1
        ({ s with body := none }.perform task err).2

theorem loopStep_cases {b : Uvloop.Act Task} (hs : s.loopStep b = some (s', es)) :
    ∃ th les, s.threads.step b = some (th, les) ∧ s' = { s with threads := th } ∧
      es = les.map .loop :=
  Threads.map_step_cases hs

theorem step_cases (hs : s.step w a = some (s', es)) :
    s.crashed = none ∧ StepCases w s a s' es := by
  obtain ⟨hc, hs⟩ := Option.ite_none_left_eq_some.mp hs
  refine ⟨by simpa using hc, ?_⟩
  cases a with
  | conn i b =>
    obtain ⟨⟨ho, hi⟩, hs⟩ := Option.ite_none_right_eq_some.mp hs
    obtain ⟨⟨u, fs⟩, hu, he⟩ := Option.map_eq_some_iff.mp hs
    obtain ⟨rfl, rfl⟩ := Prod.mk.inj he
    exact .conn i b u fs ho hi hu
  | closeCb i h =>
    obtain ⟨⟨hp, ht⟩, hs⟩ := Option.ite_none_right_eq_some.mp hs
    obtain ⟨rfl, rfl⟩ := Prod.mk.inj (Option.some.inj hs)
    exact .closeCb i h hp ht
  | run t =>
    obtain ⟨hi, hs⟩ := Option.ite_none_right_eq_some.mp hs
    obtain ⟨th, les, ht, rfl, rfl⟩ := loopStep_cases hs
    exact .loop _ _ _ th les (.run t hi) ht
  | setRunning t =>
    obtain ⟨th, les, ht, rfl, rfl⟩ := loopStep_cases hs
    exact .loop _ _ _ th les (.setRunning t) ht
  | stop t =>
    obtain ⟨hi, hs⟩ := Option.ite_none_right_eq_some.mp hs
    obtain ⟨th, les, ht, rfl, rfl⟩ := loopStep_cases hs
    exact .loop _ _ _ th les (.stop t hi) ht
  | request t e id =>
    obtain ⟨hi, hs⟩ := Option.ite_none_right_eq_some.mp hs
    obtain ⟨rfl, rfl⟩ := Prod.mk.inj (Option.some.inj hs)
    exact .request t e id hi
  | addReq t =>
    dsimp only at hs
    split at hs
    · next task htask =>
      split at hs
      · next i hu =>
        obtain ⟨rfl, rfl⟩ := Prod.mk.inj (Option.some.inj hs)
        exact .addReqFault t i task htask hu
      · next hu =>
        obtain ⟨⟨s₁, es₁⟩, hp, he⟩ := Option.map_eq_some_iff.mp hs
        obtain ⟨rfl, rfl⟩ := Prod.mk.inj he
        obtain ⟨th, les, ht, rfl, rfl⟩ := loopStep_cases hp
        exact .addReq t task th les htask hu ht
    · contradiction
  | lock t =>
    obtain ⟨⟨s₁, es₁⟩, hp, he⟩ := Option.map_eq_some_iff.mp hs
    obtain ⟨rfl, rfl⟩ := Prod.mk.inj he
    obtain ⟨th, les, ht, rfl, rfl⟩ := loopStep_cases hp
    exact .lock t th les ht
  | turn b =>
    obtain ⟨hb, hs⟩ := Option.ite_none_left_eq_some.mp hs
    obtain ⟨⟨s₁, es₁⟩, hp, he⟩ := Option.map_eq_some_iff.mp hs
    obtain ⟨rfl, rfl⟩ := Prod.mk.inj he
    obtain ⟨th, les, ht, rfl, rfl⟩ := loopStep_cases hp
    exact .turn b th les ht hb
  | perform err =>
    dsimp only at hs
    split at hs
    · next task hb =>
      obtain ⟨rfl, rfl⟩ := Prod.mk.inj (Option.some.inj hs)
      exact .perform task err hb
    · contradiction

/-! ## What a connection does by itself -/

/-- Where a connection's own step leads: to the same loop, with at most the thread that is in
its code elsewhere. Before it such a thread does not call `AddReq`, and afterwards it does
not ask for an `E_LOOP_STOP`. -/
structure Own (u : Uvconnect) (b : Uvconnect.Act) (u' : Uvconnect) : Prop where
  threads : u'.threads = u.threads
  body : u'.body = u.body
  others : ∀ t, caller b ≠ some t → u'.call t = u.call t
  before : ∀ t, caller b = some t →
    foreign (u.call t) = .idle ∧ (u.call t = .idle → enters b = some t)
  after : ∀ t req, caller b = some t → u'.call t = .requesting req → req.eType ≠ .loopStop

theorem Own.of_eq (ht : u'.threads = u.threads) (hb : u'.body = u.body)
    (hc : u'.call = u.call) (hold : ∀ t, caller b = some t →
      foreign (u.call t) = .idle ∧ (u.call t = .idle → enters b = some t)) : Own u b u' := by
  refine ⟨ht, hb, fun t _ => congrFun hc t, hold, fun t req hcaller he => ?_⟩
  have hf := (hold t hcaller).1
  rw [hc] at he
  rw [he] at hf
  cases hf

theorem Own.of_update {c : Writer} (ht : u'.threads = u.threads) (hb : u'.body = u.body)
    (hc : u'.call = update u.call t c) (hcaller : caller b = some t)
    (hold : foreign (u.call t) = .idle ∧ (u.call t = .idle → enters b = some t))
    (hnew : ∀ req, c = .requesting req → req.eType ≠ .loopStop) : Own u b u' := by
  constructor
  case threads => exact ht
  case body => exact hb
  case others =>
    intro x hx
    have hxt : x ≠ t := fun he => hx (he ▸ hcaller)
    rw [hc, update_of_ne hxt]
  case before =>
    intro x hx
    obtain rfl : t = x := Option.some.inj (hcaller.symm.trans hx)
    exact hold
  case after =>
    intro x req hx he
    obtain rfl : t = x := Option.some.inj (hcaller.symm.trans hx)
    rw [hc, update_self] at he
    exact hnew req he

/-- A thread that is in a function of the connection was between two calls when it entered, and
is past the tests of `wirteData` in the two steps after them. -/
theorem caller_before (hs : u.step w b = some (u', fs)) (hb : caller b = some t) :
    foreign (u.call t) = .idle ∧ (u.call t = .idle → enters b = some t) := by
  obtain ⟨-, hs⟩ := Option.ite_none_left_eq_some.mp hs
  cases b with
  | wirteData x buf =>
    obtain rfl := Option.some.inj hb
    obtain ⟨⟨hi, -⟩, -⟩ := Option.ite_none_right_eq_some.mp hs
    exact ⟨by rw [hi.1]; rfl, fun _ => rfl⟩
  | request x f =>
    obtain rfl := Option.some.inj hb
    obtain ⟨hi, -⟩ := Option.ite_none_right_eq_some.mp hs
    exact ⟨by rw [hi.1]; rfl, fun _ => rfl⟩
  | takeSend x ma =>
    obtain rfl := Option.some.inj hb
    dsimp only at hs
    split at hs
    · next buf hc => exact ⟨by rw [hc]; rfl, fun h => by cases hc.symm.trans h⟩
    · cases hs
  | readmem x ma re =>
    obtain rfl := Option.some.inj hb
    dsimp only at hs
    split at hs
    · next r buf hc => exact ⟨by rw [hc]; rfl, fun h => by cases hc.symm.trans h⟩
    · cases hs
  | _ => cases hb

theorem own_of_step (ho : owned b = true) (hs : u.step w b = some (u', fs)) : Own u b u' := by
  have hold : ∀ t, caller b = some t → _ := fun t => caller_before hs
  cases Uvconnect.step_cases hs with
  | registerConnect | registerloopAndStream | setEventHandler | setIPAndAddr | rejected
  | obtainFault | fillFault | requestRejected | connectCb => exact .of_eq rfl rfl rfl hold
  | loop _ _ _ _ hl => cases hl <;> cases ho
  | checked t buf => exact .of_update rfl rfl rfl rfl (hold t rfl) nofun
  | obtained t ma buf r u₁ _ ht =>
    obtain ⟨hth, -, hbody, -⟩ := Uvconnect.takeSend_threads ht
    exact .of_update hth hbody rfl rfl (hold t rfl) nofun
  | filled t =>
    refine .of_update rfl rfl rfl rfl (hold t rfl) ?_
    rintro req ⟨⟩
    exact nofun
  | requesting t f u₁ req hi hb =>
    obtain ⟨hap, -, hstop⟩ := Uvconnect.begin_cases hb
    refine .of_update hap.threads hap.body rfl rfl (hold t rfl) ?_
    rintro req' he hst
    obtain rfl : req = req' := Writer.requesting.inj he
    obtain ⟨id, rfl⟩ := hstop hst
    cases ho
  | addReq | addReqFault | lock | turn | perform | closeCb => cases ho
  | readCb h nread =>
    have hap := (Uvconnect.readDone_cases u nread).apart.1
    exact .of_eq hap.threads hap.body hap.call hold
  | writeCb r status =>
    unfold Uvconnect.written
    split <;> exact .of_eq rfl rfl rfl hold

/-! ## The threads -/

/-- A thread that is about to call `AddReq` is not in a call of the loop, and there are
always threads that do nothing. -/
structure Inv (s : Host) : Prop where
  free : ∀ t, s.call t ≠ .idle → s.threads.call t = .idle
  spare : ∃ n, ∀ t, n ≤ t → s.Idle t

theorem Inv.of_one (hi : s.Inv)
    (hc : ∀ x ≠ t, s'.call x = s.call x ∧ s'.threads.call x = s.threads.call x)
    (ht : s'.call t ≠ .idle → s'.threads.call t = .idle) : s'.Inv := by
  constructor
  case free =>
    intro x hx
    rcases eq_or_ne x t with rfl | hxt
    · exact ht hx
    · rw [(hc x hxt).2]
      exact hi.free x ((hc x hxt).1 ▸ hx)
  case spare =>
    obtain ⟨n, hn⟩ := hi.spare
    refine ⟨max n (t + 1), fun x hx => ?_⟩
    have hxt : x ≠ t := by omega
    rw [Idle, (hc x hxt).1, (hc x hxt).2]
    exact hn x (by omega)

theorem Inv.of_eq (hi : s.Inv) (hc : s'.call = s.call) (ht : s'.threads.call = s.threads.call) :
    s'.Inv := by
  refine hi.of_one (t := 0) (fun x _ => by rw [hc, ht]; exact ⟨rfl, rfl⟩) fun h => ?_
  rw [ht]
  exact hi.free 0 (by rwa [← hc])

theorem Inv.of_threads (hi : s.Inv) {b : Uvloop.Act Task} (hs : s.threads.step b = some (th, les))
    (hb : ∀ t ∈ b.thread, s.call t = .idle) (hc : s'.call = s.call) (ht : s'.threads = th) :
    s'.Inv := by
  cases hbt : b.thread with
  | none =>
    refine hi.of_eq hc ?_
    ext x : 1
    rw [ht]
    exact Threads.call_of_ne hs (by simp [hbt])
  | some t =>
    refine hi.of_one (t := t) (fun x hx => ⟨by rw [hc], ?_⟩) fun hne => ?_
    · rw [ht]
      exact Threads.call_of_ne hs (by simpa [hbt] using hx.symm)
    · rw [hc] at hne
      exact absurd (hb t hbt) hne

theorem closed_call (s : Host) (i h : ℕ) : (s.closed i h).1.call = s.call ∧
    (s.closed i h).1.threads.call = s.threads.call := by
  unfold closed connectToServer Threads.atOnce
  dsimp only
  split
  · split
    · exact ⟨rfl, rfl⟩
    · split <;> exact ⟨rfl, rfl⟩
  · exact ⟨rfl, rfl⟩

theorem perform_call (s : Host) (task : Task) (err : ℤ) :
    (s.perform task err).1.call = s.call ∧ (s.perform task err).1.threads = s.threads ∧
      (s.perform task err).1.body = s.body := by
  cases task <;> exact ⟨rfl, rfl, rfl⟩

theorem Inv.of_own (hi : s.Inv) (ho : Own (s.view i) b u) (he : ∀ t ∈ enters b, s.Idle t) :
    (s.put i (caller b) (u, fs)).1.Inv := by
  cases hb : caller b with
  | none => exact hi.of_eq rfl rfl
  | some t =>
    refine hi.of_one (t := t) (fun x hx => ⟨update_of_ne hx .., rfl⟩) fun _ => ?_
    by_cases hc : s.call t = .idle
    · have hseen : (s.view i).call t = .idle := by simp [view, hc, Place.seen]
      exact (he t ((ho.before t hb).2 hseen)).2
    · exact hi.free t hc

theorem Inv.step (hi : s.Inv) (hs : s.step w a = some (s', es)) : s'.Inv := by
  cases (step_cases hs).2 with
  | conn i b u fs ho he hu => exact hi.of_own (own_of_step ho hu) he
  | closeCb i h => exact hi.of_eq (closed_call s i h).1 (closed_call s i h).2
  | loop a b c th les hl ht =>
    refine hi.of_threads ht (fun t hbt => ?_) rfl rfl
    cases hl with
    | run x hx | stop x hx =>
      obtain rfl : x = t := Option.some.inj hbt
      exact hx.1
    | setRunning x =>
      obtain rfl : x = t := Option.some.inj hbt
      by_contra hne
      exact Threads.busy ht (.inr rfl) (hi.free x hne)
  | request t e id hidle =>
    exact hi.of_one (t := t) (fun x hx => ⟨update_of_ne hx .., rfl⟩) fun _ => hidle.2
  | addReqFault => exact hi.of_eq rfl rfl
  | addReq t task th les _ _ ht =>
    refine hi.of_one (t := t) (fun x hx => ⟨update_of_ne hx .., ?_⟩) fun hne => ?_
    · exact Threads.call_of_ne ht (by simpa [Uvloop.Act.thread] using hx.symm)
    · exact absurd (update_self ..) hne
  | lock t th les ht =>
    refine hi.of_threads ht (fun x hbt => ?_) rfl rfl
    obtain rfl : t = x := Option.some.inj hbt
    by_contra hne
    exact Threads.busy ht (.inl rfl) (hi.free t hne)
  | turn b th les ht => exact hi.of_threads ht (by simp [Uvloop.Act.thread]) rfl rfl
  | perform task err =>
    obtain ⟨hc, ht, -⟩ := perform_call { s with body := none } task err
    exact hi.of_eq hc (by rw [ht])

theorem create_inv (garbage : ℕ → EType) (send : ℕ → ℕ → StSend) :
    (create garbage send).Inv where
  free _ _ := rfl
  spare := ⟨0, fun _ _ => ⟨rfl, rfl⟩⟩

end UvWrapper.Host
