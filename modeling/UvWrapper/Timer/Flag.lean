import UvWrapper.Timer.Steps

/-! # What `m_bTimerStarted` tells

The loop thread writes the flag behind each call of libuv that starts or stops the timer. Only
when a timer expires does it go by `m_repeat`, which `SetTimer` may have changed since
`uv_timer_start` was given its value.
-/

namespace UvWrapper.Uvtimer

open Function Transition

variable {s s' : Uvtimer} {a : Act} {es tr : List Event} {G : Uvtimer → Act → Prop}

/-- What the flag and the timer have to do with each other, by the place of the loop thread. -/
def Tracks (s : Uvtimer) : Prop :=
  match s.body with
  | .none | .timerStart | .timerStop => s.bTimerStarted = s.timer.active
  | .started => s.timer.active = true
  | .stopped | .ending => s.timer.active = false
  | .testing | .restarting | .startingAgain => s.bTimerStarted = false ∧ s.timer.active = false
  | .timercb =>
    s.bTimerStarted = true ∧ ∃ period, s.timer = .inited (decide (period ≠ 0)) period

/-- When the timer callback tests `m_repeat`, it is 0 exactly if the timer was started without
repeat. -/
def keepsRepeat (s : Uvtimer) : Act → Prop
  | .perform => s.body = .timercb → (s.mRepeat = 0 ↔ s.timer.period = 0)
  | _ => True

/-- In the runs whose steps satisfy `G` the flag says, wherever the loop thread is not in a
function of the timer, whether the timer is active. -/
def FlagTells (G : Uvtimer → Act → Prop) : Prop :=
  ∀ tr s, timed.Reach G tr s → s.body = .none →
    (s.bTimerStarted = true ↔ s.timer.active = true)

theorem nextBody_cases (s : Uvtimer) (a : Uvloop.Turn) (position : Position) :
    s.nextBody a position = .none ∨ s.nextBody a position = .timerStart ∨
      s.nextBody a position = .timerStop := by
  unfold nextBody
  split
  · unfold Body.enter
    split
    · exact .inr (.inl rfl)
    · exact .inr (.inr rfl)
    · exact .inl rfl
  · exact .inl rfl

theorem PerformCases.tracks (hp : PerformCases s s' es) (h : s.Tracks)
    (hk : s.body = .timercb → (s.mRepeat = 0 ↔ s.timer.period = 0)) : s'.Tracks := by
  cases hp with
  | timerStart => rfl
  | stopped hb =>
    rw [Tracks, hb] at h
    exact ⟨rfl, h⟩
  | started hb | ended hb =>
    rw [Tracks, hb] at h
    exact h.symm
  | timerStop => rfl
  | timerStopRaw _ ht =>
    change s.timer.active = false
    rw [ht]
    rfl
  | timerStopFault | startFault => exact h
  | done hb | startedAlready hb | startAgain _ _ hb | startRefused hb =>
    rw [Tracks, hb] at h
    exact h.1.trans h.2.symm
  | restart hb | restarting hb =>
    rw [Tracks, hb] at h
    exact h
  | repeating hb hm =>
    rw [Tracks, hb] at h
    obtain ⟨hf, period, ht⟩ := h
    have hp : period ≠ 0 := fun h0 => hm ((hk hb).mpr (by rw [ht]; exact h0))
    change s.bTimerStarted = s.timer.active
    rw [hf, ht]
    exact (decide_eq_true hp).symm
  | ending hb hm =>
    rw [Tracks, hb] at h
    obtain ⟨-, period, ht⟩ := h
    have hp : s.timer.period = 0 := (hk hb).mp hm
    rw [ht] at hp
    change s.timer.active = false
    rw [ht]
    exact decide_eq_false fun hne => hne hp

theorem Tracks.step (h : s.Tracks) (hk : s.keepsRepeat a) (hs : s.step a = some (s', es)) :
    s'.Tracks := by
  cases step_cases hs with
  | turn b th les hb =>
    rw [Tracks, hb] at h
    rcases s.nextBody_cases b th.loop.position with he | he | he <;> rw [Tracks, he] <;> exact h
  | perform _ _ hp => exact hp.tracks h hk
  | expire period ht hb | expireFault period ht hb =>
    rw [Tracks, hb] at h
    refine ⟨h.trans ?_, period, rfl⟩
    rw [ht]
    rfl
  | _ => exact h

theorem tracks_create (garbage : ℕ → EType) (bit : Bool) : (create garbage bit).Tracks := rfl

theorem Tracks.iff (h : s.Tracks) (hb : s.body = .none) :
    s.bTimerStarted = true ↔ s.timer.active = true := by
  rw [Tracks, hb] at h
  rw [show s.bTimerStarted = s.timer.active from h]

theorem FlagTells.keepsRepeat (hf : FlagTells G) (hG : ∀ s, G s .perform)
    (hr : timed.Reach G tr s) (h : s.Tracks) (hs : s.step a = some (s', es)) :
    s.keepsRepeat a := by
  cases a with
  | perform =>
    intro hb
    rw [Tracks, hb] at h
    obtain ⟨hflag, period, ht⟩ := h
    have hc : s.crashed = false := by
      by_contra hc
      simp [step, hc] at hs
    have hstep : timed.step s .perform =
        some ({ s with body := if s.mRepeat = 0 then .ending else .none }, []) := by
      simp [timed, step, hc, perform, hb]
    have hr₁ := hr.step (hG s) hstep
    by_cases hm : s.mRepeat = 0
    · rw [if_pos hm] at hr₁
      have hstep₂ : timed.step { s with body := .ending } .perform =
          some ({ s with bTimerStarted := false, body := .none }, []) := by
        simp [timed, step, hc, perform]
      have hr₂ := hr₁.step (hG _) hstep₂
      have hiff := hf _ _ hr₂ rfl
      have hp : period = 0 := by simpa [ht, UvTimer.active] using hiff
      rw [ht]
      exact ⟨fun _ => hp, fun _ => hm⟩
    · rw [if_neg hm] at hr₁
      have hactive : s.timer.active = true := (hf _ _ hr₁ rfl).mp hflag
      have hp : period ≠ 0 := by simpa [ht, UvTimer.active] using hactive
      rw [ht]
      exact ⟨fun h0 => (hm h0).elim, fun h0 => (hp h0).elim⟩
  | _ => trivial

/-- `m_bTimerStarted` tells the truth as long as `m_repeat` is 0 at each expiration exactly if
the timer was started without repeat; in runs in which the loop thread may always go on, only
as long. -/
theorem flagTells_iff (G : Uvtimer → Act → Prop) :
    (timed.Always G keepsRepeat → FlagTells G) ∧
      ((∀ s, G s .perform) → FlagTells G → timed.Always G keepsRepeat) := by
  constructor
  · intro hk tr s hr hb
    refine Tracks.iff (hr.stateInvariant ?_ ?_) hb
    · rintro s ⟨garbage, bit, rfl⟩
      exact tracks_create garbage bit
    · intro tr s a s' es hr h hg hs
      exact h.step (hk tr s a s' es hr hg hs) hs
  · intro hG hf tr s a s' es hr _ hs
    have h : s.Tracks := by
      refine hr.stateInvariant ?_ ?_
      · rintro s ⟨garbage, bit, rfl⟩
        exact tracks_create garbage bit
      · intro tr s a s' es hr h _ hs
        exact h.step (hf.keepsRepeat hG hr h hs) hs
    exact hf.keepsRepeat hG hr h hs

def startRequested (period : ℕ) : List Act :=
  [.registerTimer, .setTimer true 10 period, .run 1, .setRunning 1,
    .request 1 (.startTimer false), .addReq 1, .lock 1]

/-- The loop thread executes the request of a handle in `n` steps. -/
def execute (h n : ℕ) : List Act :=
  .turn (.fire h) :: (List.replicate n .perform ++ [.turn .tcbReturn, .turn .recycle])

/-- A repeating timer is set to run once while it is active. When it expires the flag is
cleared, and the timer goes on. -/
theorem not_flagTells : ¬ FlagTells (anyStep Uvtimer Act) := by
  intro htells
  obtain ⟨tr, s, hr, hp⟩ := System.exists_run_of_exec (M := timed) (G := anyStep Uvtimer Act)
    (s := create (fun _ => .loopStop) false)
    (startRequested 10 ++ execute 0 2 ++ [.setTimer true 10 0, .expire, .perform, .perform])
    (p := fun s _ => decide (s.body = .none ∧ s.bTimerStarted = false ∧ s.timer.active = true))
    (by decide +kernel)
  obtain ⟨hb, hf, ha⟩ := of_decide_eq_true hp
  have h := (htells tr s ⟨_, ⟨_, _, rfl⟩, hr⟩ hb).mpr ha
  exact Bool.false_ne_true (hf.symm.trans h)

end UvWrapper.Uvtimer
