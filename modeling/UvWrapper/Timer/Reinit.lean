import UvWrapper.Timer.Flag
import UvWrapper.Lib.Update

/-! # Initialising the timer again

`startTimer` tests `m_bTimerStarted` when it adds its request, and `timerStart` does not test
it again. Where the timer is set up before it is first started, the flag is the state of the
timer, so that an active timer is initialised exactly where a request to start it is executed
after the flag was set.
-/

namespace UvWrapper.Uvtimer

open Function Transition

variable {s s' : Uvtimer} {a : Act} {es tr : List Event} {b : Bool}
  {G : Uvtimer × Bool → Act → Prop} {p : Uvtimer × Bool}

def begins : Act → Bool
  | .request _ (.startTimer _) => true
  | _ => false

/-- The timer with a note of whether `startTimer` has been called. -/
def watched : System (Uvtimer × Bool) Act Event :=
  timed.observed false fun _ a _ begun => begun || begins a

def setFirst (begun : Bool) : Act → Prop
  | .setTimer _ _ _ => begun = false
  | _ => True

instance (begun : Bool) : DecidablePred (setFirst begun) := fun a =>
  match a with
  | .setTimer _ _ _ => inferInstanceAs (Decidable (begun = false))
  | .registerTimer | .run _ | .setRunning _ | .stop _ | .request _ _ | .force _ | .addReq _
  | .lock _ | .turn _ | .perform | .expire => .isTrue trivial

/-- In the runs whose steps satisfy `G`, `uv_timer_init` is never called on an active timer. -/
def NeverReinits (G : Uvtimer × Bool → Act → Prop) : Prop :=
  ∀ tr p, watched.Reach (fun p a => setFirst p.2 a ∧ G p a) tr p → .timerInit true ∉ tr

/-- A request to start the timer finds `m_bTimerStarted` false also when it is executed. -/
def startsStopped (p : Uvtimer × Bool) : Act → Prop
  | .perform => p.1.body = .timerStart → p.1.bTimerStarted = false
  | _ => True

/-! ## Before the first start -/

structure Unstarted (s : Uvtimer) : Prop where
  timer : ∃ bit, s.timer = .raw bit
  restart : s.bRestartTimer = false
  call : ∀ t, s.call t = .idle ∨ s.call t = .stopping ∨ ∃ e id, s.call t = .adding e id
  adding : ∀ t e, s.threads.call t ≠ .locking (.addReq e (some .timerStart))
  tcb : ∀ h, (s.threads.loop.async h).tcb ≠ some .timerStart
  body : s.body = .none ∨ s.body = .timerStop ∨ s.body = .stopped ∨ s.body = .testing

theorem unstarted_create (garbage : ℕ → EType) (bit : Bool) :
    (create garbage bit).Unstarted where
  timer := ⟨bit, rfl⟩
  restart := rfl
  call _ := .inl rfl
  adding _ _ := by simp [create]
  tcb _ := by simp [create, Uvloop.create]
  body := .inl rfl

theorem Unstarted.of_threads (h : s.Unstarted) {c : Uvloop.Act Req} {th : Uvloop.Threads Req}
    {les : List (Uvloop.Event Req)} (ht : s.threads.step c = some (th, les))
    (hc : ∀ t e, c ≠ .call t (.addReq e (some .timerStart))) :
    Unstarted { s with threads := th } := by
  refine ⟨h.timer, h.restart, h.call, ?_, ?_, h.body⟩
  · intro t e he
    rcases Uvloop.Threads.step_call ht he with he | rfl
    · exact h.adding t e he
    · exact hc t e rfl
  · intro x hx
    rcases Uvloop.Threads.tcb_of_step ht hx with hx | ⟨t, e, -, he, -⟩
    · exact h.tcb x hx
    · exact h.adding t e he

theorem Unstarted.of_call (h : s.Unstarted) {t : ℕ} {c : Caller}
    (hc : c = .idle ∨ c = .stopping ∨ ∃ e id, c = .adding e id) :
    Unstarted { s with call := update s.call t c } := by
  refine ⟨h.timer, h.restart, fun u => ?_, h.adding, h.tcb, h.body⟩
  rcases eq_or_ne u t with rfl | hu
  · simpa using hc
  · simpa [hu] using h.call u

theorem Unstarted.of_body (h : s.Unstarted) {body : Body}
    (hb : body = .none ∨ body = .timerStop ∨ body = .stopped ∨ body = .testing) :
    Unstarted { s with body } :=
  ⟨h.timer, h.restart, h.call, h.adding, h.tcb, hb⟩

theorem Unstarted.serves (h : s.Unstarted) {t : ℕ} {f : Api} {req : Req}
    (hc : (s.call t).serves = some (f, req)) : req ≠ .timerStart := by
  rcases h.call t with he | he | ⟨e, id, he⟩ <;> rw [he] at hc
  · cases hc
  · obtain ⟨-, rfl⟩ := Prod.mk.inj (Option.some.inj hc)
    simp
  · obtain ⟨-, rfl⟩ := Prod.mk.inj (Option.some.inj hc)
    simp

theorem Unstarted.perform (h : s.Unstarted) (hp : PerformCases s s' es) : s'.Unstarted := by
  have hbody := h.body
  obtain ⟨bit, ht⟩ := h.timer
  cases hp with
  | timerStop active period _ hi => cases hi.symm.trans ht
  | timerStopRaw => exact h.of_body (.inr (.inr (.inl rfl)))
  | timerStopFault | startFault => exact ⟨h.timer, h.restart, h.call, h.adding, h.tcb, h.body⟩
  | stopped =>
    exact ⟨h.timer, h.restart, h.call, h.adding, h.tcb, .inr (.inr (.inr rfl))⟩
  | done => exact h.of_body (.inl rfl)
  | restart _ hr => cases hr.symm.trans h.restart
  | timerStart hb | started hb | restarting hb | startedAlready hb | startAgain _ _ hb
  | startRefused hb | repeating hb | ending hb | ended hb => simp [hb] at hbody

theorem Unstarted.step (h : s.Unstarted) (hn : begins a = false)
    (hs : s.step a = some (s', es)) : s'.Unstarted := by
  cases step_cases hs with
  | registerTimer | setTimer | addReqFault =>
    exact ⟨h.timer, h.restart, h.call, h.adding, h.tcb, h.body⟩
  | loop a c th les hl ht =>
    apply h.of_threads ht
    cases hl <;> simp
  | request t f =>
    apply h.of_call
    cases f with
    | startTimer => cases hn
    | stopTimer => exact .inr (.inl rfl)
    | other e id => exact .inr (.inr ⟨e, id, rfl⟩)
  | force t hc => rcases h.call t with he | he | ⟨e, id, he⟩ <;> cases hc.symm.trans he
  | addReq t f req th les hc ht =>
    exact h.of_threads ht (by simp [h.serves hc])
  | refused t f req th les hc ht =>
    exact (h.of_threads ht (by simp [h.serves hc])).of_call (.inl rfl)
  | lock t f req th les err hc ht => exact (h.of_threads ht (by simp)).of_call (.inl rfl)
  | lockStop t th les hc ht => exact h.of_threads ht (by simp)
  | turn c th les hb ht =>
    apply (h.of_threads ht (by simp)).of_body
    unfold nextBody
    split
    · unfold Body.enter
      split
      · next he => exact (h.tcb _ he).elim
      · exact .inr (.inl rfl)
      · exact .inl rfl
    · exact .inl rfl
  | perform _ _ hp => exact h.perform hp
  | expire period hi | expireFault period hi =>
    obtain ⟨bit, ht⟩ := h.timer
    cases hi.symm.trans ht

/-! ## The repeat value -/

/-- The timer has the repeat value of `m_repeat`, which nobody changes once it may be
started. -/
structure Configured (begun : Bool) (s : Uvtimer) : Prop where
  unstarted : begun = false → s.Unstarted
  period : ∀ active period, s.timer = .inited active period → period = s.mRepeat

theorem PerformCases.period (hp : PerformCases s s' es)
    (h : ∀ active period, s.timer = .inited active period → period = s.mRepeat) :
    ∀ active period, s'.timer = .inited active period → period = s'.mRepeat := by
  cases hp with
  | timerStart =>
    rintro active period ht
    exact (UvTimer.inited.inj ht).2.symm
  | timerStop active period _ hi =>
    rintro active' period' ht
    exact (UvTimer.inited.inj ht).2 ▸ h active period hi
  | _ => exact h

theorem Configured.step (h : Configured b s) (hg : setFirst b a) (hs : s.step a = some (s', es)) :
    Configured (b || begins a) s' := by
  constructor
  · intro hn
    obtain ⟨hb, ha⟩ := Bool.or_eq_false_iff.mp hn
    exact (h.unstarted hb).step ha hs
  · cases step_cases hs with
    | setTimer =>
      intro active period hi
      obtain ⟨bit, ht⟩ := (h.unstarted hg).timer
      cases hi.symm.trans ht
    | perform _ _ hp => exact hp.period h.period
    | expire period hi | expireFault period hi =>
      rintro active' period' ht
      exact (UvTimer.inited.inj ht).2 ▸ h.period _ period hi
    | _ => exact h.period

theorem Configured.keepsRepeat (h : Configured b s) (ht : s.Tracks) (a : Act) :
    s.keepsRepeat a := by
  cases a with
  | perform =>
    intro hb
    rw [Tracks, hb] at ht
    obtain ⟨-, period, hi⟩ := ht
    rw [← h.period _ period hi, hi]
    rfl
  | _ => trivial

/-- Under either note of the past the flag follows the timer. -/
theorem Configured.tracks (h : Configured b s) (ht : s.Tracks) (hs : s.step a = some (s', es)) :
    s'.Tracks :=
  ht.step (h.keepsRepeat ht a) hs

theorem configured_of_reach (h : watched.Reach (fun p a => setFirst p.2 a ∧ G p a) tr p) :
    Configured p.2 p.1 ∧ p.1.Tracks := by
  refine h.stateInvariant (I := fun p => Configured p.2 p.1 ∧ p.1.Tracks) ?_ ?_
  · rintro ⟨s, b⟩ ⟨⟨garbage, bit, rfl⟩, rfl⟩
    exact ⟨⟨fun _ => unstarted_create garbage bit, by simp [create]⟩, tracks_create garbage bit⟩
  · rintro tr p a p' es - ⟨hc, ht⟩ ⟨hg, -⟩ hs
    obtain ⟨hs, he⟩ := System.observed_step.mp hs
    exact ⟨he ▸ hc.step hg hs, hc.tracks ht hs⟩

/-! ## Starting an active timer -/

theorem timerInit_cases (hs : s.step a = some (s', es)) (he : .timerInit b ∈ es) :
    a = .perform ∧ s.body = .timerStart ∧ b = s.timer.active := by
  cases step_cases hs with
  | perform _ _ hp =>
    cases hp with
    | timerStart hb => exact ⟨rfl, hb, by simpa using he⟩
    | _ => simp at he
  | request => split at he <;> simp at he
  | _ => simp at he

theorem timerInit_of_step (hs : s.step .perform = some (s', es)) (hb : s.body = .timerStart)
    (ha : s.timer.active = true) : .timerInit true ∈ es := by
  have he : s.timerStart.2 = es := by
    unfold step at hs
    split at hs
    · contradiction
    · simp only [perform, hb] at hs
      exact (Prod.mk.inj (Option.some.inj hs)).2
  rw [← he, timerStart, ha]
  exact List.mem_cons_self

/-- An active timer is never initialised again exactly if each request to start it is executed
while `m_bTimerStarted` is false. -/
theorem neverReinits_iff (G : Uvtimer × Bool → Act → Prop) :
    NeverReinits G ↔ watched.Always (fun p a => setFirst p.2 a ∧ G p a) startsStopped := by
  constructor
  · intro hn tr p a p' es hr hg hs
    cases a with
    | perform =>
      intro hb
      have ht := (configured_of_reach hr).2
      rw [Tracks, hb] at ht
      by_contra hf
      have hactive : p.1.timer.active = true := by simpa [ht] using hf
      exact hn _ _ (hr.step hg hs)
        (List.mem_append_right _ (timerInit_of_step (System.observed_step.mp hs).1 hb hactive))
    | _ => trivial
  · intro hk tr p hr
    refine hr.invariant (I := fun tr _ => .timerInit true ∉ tr) (by simp) ?_
    intro tr p a p' es hr hi hg hs he
    rcases List.mem_append.mp he with he | he
    · exact hi he
    · obtain ⟨rfl, hb, ha⟩ := timerInit_cases (System.observed_step.mp hs).1 he
      have hf := hk tr p .perform p' es hr hg hs hb
      have ht := (configured_of_reach hr).2
      rw [Tracks, hb] at ht
      cases (hf.symm.trans ht).trans ha.symm

/-- `startTimer` is called twice before the loop thread comes to the first request. -/
theorem not_neverReinits : ¬ NeverReinits fun _ _ => True := by
  intro hnever
  obtain ⟨tr, p, hr, hp⟩ := System.exists_run_of_exec (M := watched)
    (G := fun p a => setFirst p.2 a ∧ True) (s := (create (fun _ => .loopStop) false, false))
    (startRequested 10 ++ [.request 1 (.startTimer false), .addReq 1, .lock 1] ++
      execute 0 2 ++ execute 1 2)
    (p := fun _ tr => decide (.timerInit true ∈ tr)) (by decide +kernel)
  exact hnever tr p ⟨_, ⟨⟨_, _, rfl⟩, rfl⟩, hr⟩ (of_decide_eq_true hp)

end UvWrapper.Uvtimer
