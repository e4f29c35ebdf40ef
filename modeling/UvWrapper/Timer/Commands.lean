import UvWrapper.Timer.Outcome

/-! # Obeying the last command

Calls decide by `m_bTimerStarted`, which lags behind the requests that wait, and a restart is a
flag that whichever stop is executed first takes for its own. As the loop thread does not
change what the timer will come to, it is settled at the end of each call whether the timer
will obey that call.
-/

namespace UvWrapper.Uvtimer

open Function Transition

variable {s s' : Uvtimer} {a : Act} {es tr : List Event} {queue : List ℕ} {t : ℕ} {req : Req}

/-- What is known of the past: whether `startTimer` has been called, the handles that carry
requests of this timer in the order of acceptance, whether the last call was to start or to
stop the timer, and whether it met the condition `heeds`. -/
structure Ledger where
  begun : Bool
  queue : List ℕ
  last : Option Bool
  heeded : Bool

/-- A `startTimer` that returns at once finds no stop behind all other requests, or a restart
under way; the stop that `startTimer(true)` adds finds its restart under way, and the stop of
`StopTimer` finds none. -/
def heeds (p : Uvtimer × Ledger) : Act → Prop
  | .request _ (.startTimer false) => p.1.bTimerStarted = true →
      (p.1.pending p.2.queue).getLast? = some .timerStop → p.1.Restarting
  | .lock t => (p.1.call t = .restarting → p.1.Restarting) ∧
      (p.1.call t = .stopping → ¬ p.1.Restarting)
  | _ => True

instance (p : Uvtimer × Ledger) : DecidablePred (heeds p) := fun a =>
  match a with
  | .request _ (.startTimer false) => inferInstanceAs (Decidable (_ → _))
  | .lock _ => inferInstanceAs (Decidable (_ ∧ _))
  | .request _ (.startTimer true) | .request _ .stopTimer | .request _ (.other _ _)
  | .registerTimer | .setTimer _ _ _ | .run _ | .setRunning _ | .stop _ | .force _ | .addReq _
  | .turn _ | .perform | .expire => .isTrue trivial

/-- The end of a call that has returned true: to start the timer, or to stop it. -/
def Event.command : Event → Option Bool
  | .returned _ (.startTimer _) true => some true
  | .returned _ .stopTimer true => some false
  | _ => none

def entry (s : Uvtimer) (a : Act) (es : List Event) (g : Ledger) : Ledger where
  begun := g.begun || begins a
  queue := s.enqueue a es g.queue
  last := (es.findSome? Event.command).or g.last
  heeded := if (es.findSome? Event.command).isSome then decide (heeds (s, g) a) else g.heeded

def commanded : System (Uvtimer × Ledger) Act Event := timed.observed ⟨false, [], none, true⟩ entry

/-- `SetTimer` is called before the first `startTimer` only, and the timer repeats. -/
def repeats (p : Uvtimer × Ledger) : Act → Prop
  | .setTimer _ _ _ => p.2.begun = false
  | .request _ (.startTimer _) => 0 < p.1.mRepeat
  | _ => True

/-- A repeating timer whose requests are all accepted, and executed in the order of their
acceptance. -/
def orderly (p : Uvtimer × Ledger) (a : Act) : Prop :=
  repeats p a ∧ othersBehave a ∧ p.1.accepts a ∧ p.1.inOrder p.2.queue a

instance (p : Uvtimer × Ledger) : DecidablePred (repeats p) := fun a =>
  match a with
  | .setTimer _ _ _ => inferInstanceAs (Decidable (_ = _))
  | .request _ (.startTimer _) => inferInstanceAs (Decidable (_ < _))
  | .request _ .stopTimer | .request _ (.other _ _) | .registerTimer | .run _ | .setRunning _
  | .stop _ | .force _ | .addReq _ | .lock _ | .turn _ | .perform | .expire => .isTrue trivial

instance (p : Uvtimer × Ledger) : DecidablePred (orderly p) := fun _ =>
  inferInstanceAs (Decidable (_ ∧ _))

def onlyThread (t : ℕ) : Act → Prop
  | .request u _ => u = t
  | _ => True

instance (t : ℕ) : DecidablePred (onlyThread t) := fun a =>
  match a with
  | .request u _ => inferInstanceAs (Decidable (u = t))
  | .registerTimer | .setTimer _ _ _ | .run _ | .setRunning _ | .stop _ | .force _ | .addReq _
  | .lock _ | .turn _ | .perform | .expire => .isTrue trivial

def NoCommand (s : Uvtimer) : Prop :=
  ∀ t, s.call t = .idle ∨ ∃ eEventType id, s.call t = .adding eEventType id

/-- No request of this timer waits or is being executed, and none is about to be added. -/
structure Quiescent (s : Uvtimer) : Prop where
  waiting : ∀ h, s.waiting h = none
  body : s.body.request = none
  calls : s.NoCommand

/-- In the runs whose steps satisfy `G` the timer is active when nothing is pending exactly if
the last call was to start it. -/
def ObeysLast (G : Uvtimer × Ledger → Act → Prop) : Prop :=
  ∀ tr p, commanded.Reach (fun p a => orderly p a ∧ G p a) tr p → p.1.Quiescent →
    ∀ want, p.2.last = some want → p.1.timer.active = want

/-! ## One step -/

/-- What the results about the flag and about requests on their way give in such runs. -/
structure Sound (p : Uvtimer × Ledger) : Prop where
  wired : p.1.Wired
  configured : Configured p.2.begun p.1
  tracks : p.1.Tracks
  repeating : p.2.begun = true → 0 < p.1.mRepeat
  notEnding : p.1.body ≠ .ending

variable {p : Uvtimer × Ledger}

theorem Sound.mRepeat_pos (h : Sound p) {active : Bool} {period : ℕ}
    (ht : p.1.timer = .inited active period) : 0 < p.1.mRepeat := by
  apply h.repeating
  by_contra hb
  obtain ⟨bit, hraw⟩ := (h.configured.unstarted (by simpa using hb)).timer
  cases ht.symm.trans hraw

theorem Sound.mRepeat_ne_zero (h : Sound p) (hb : p.1.body = .timercb) : p.1.mRepeat ≠ 0 := by
  have ht := h.tracks
  rw [Tracks, hb] at ht
  obtain ⟨-, period, hi⟩ := ht
  exact Nat.ne_of_gt (h.mRepeat_pos hi)

theorem mRepeat_of_step (hs : s.step a = some (s', es))
    (ha : ∀ ticb delay period, a ≠ .setTimer ticb delay period) : s'.mRepeat = s.mRepeat := by
  cases step_cases hs with
  | setTimer ticb delay period => exact (ha ticb delay period rfl).elim
  | perform _ _ hp => cases hp <;> rfl
  | _ => rfl

theorem body_of_step (hs : s.step a = some (s', es)) (hb : s'.body = .ending) :
    s.body = .ending ∨ (s.body = .timercb ∧ s.mRepeat = 0) := by
  cases step_cases hs with
  | turn c th les =>
    rcases s.nextBody_cases c th.loop.position with he | he | he <;> cases he.symm.trans hb
  | perform _ _ hp =>
    cases hp with
    | ending hb' hm => exact .inr ⟨hb', hm⟩
    | timerStopFault | startFault => exact .inl hb
    | _ => cases hb
  | expire | expireFault => cases hb
  | _ => exact .inl hb

theorem Sound.step (h : Sound p) (hg : orderly p a) (hs : p.1.step a = some (s', es)) :
    Sound (s', entry p.1 a es p.2) := by
  obtain ⟨hrep, hother, -, -⟩ := hg
  have hset : setFirst p.2.begun a := by
    cases a with
    | setTimer => exact hrep
    | _ => trivial
  constructor
  case wired => exact h.wired.step hother hs
  case configured => exact h.configured.step hset hs
  case tracks => exact h.configured.tracks h.tracks hs
  case repeating =>
    intro hb
    cases a with
    | setTimer =>
      have hbegun : p.2.begun = true := by simpa [entry, begins] using hb
      cases hbegun.symm.trans hrep
    | request t f =>
      rw [mRepeat_of_step hs (by simp)]
      cases f with
      | startTimer => exact hrep
      | _ => exact h.repeating (by simpa [entry, begins] using hb)
    | _ =>
      rw [mRepeat_of_step hs (by simp)]
      exact h.repeating (by simpa [entry, begins] using hb)
  case notEnding =>
    intro hb
    rcases body_of_step hs hb with he | ⟨he, hm⟩
    · exact h.notEnding he
    · exact h.mRepeat_ne_zero he hm

theorem willRun_of_waiting (hq : Arrivals.Lists s.waiting queue) (hw : s'.waiting = s.waiting)
    (hb : s'.body = s.body) (hr : s'.bRestartTimer = s.bRestartTimer)
    (ht : s'.timer.active = s.timer.active) :
    Arrivals.Lists s'.waiting queue ∧ (s'.WillRun queue ↔ s.WillRun queue) := by
  refine ⟨hw ▸ hq, willRun_congr ?_ ?_ ht⟩
  · rw [pending, pending, hb, hw]
  · rw [Restarting, Restarting, hr, hb]

theorem waiting_of_quiet {c : Uvloop.Act Req} {les : List (Uvloop.Event Req)}
    (ht : s.threads.step c = some (s'.threads, les)) (hl : ∀ t, c ≠ .lock t)
    (htu : ∀ b, c ≠ .turn b) : s'.waiting = s.waiting :=
  waiting_congr (Uvloop.Threads.carries_of_quiet ht hl htu)

theorem own_of_serves {f : Api} (hc : (s.call t).serves = some (f, req)) :
    (s.call t).own = req.own := by
  rw [Caller.own, hc, Option.bind_some]

theorem waiting_of_lock (hw : s.Wired) {th : Uvloop.Threads Req} {les : List (Uvloop.Event Req)}
    (ho : (s.call t).own = none) (ht : s.threads.step (.lock t) = some (th, les))
    (hs : s'.threads = th) : s'.waiting = s.waiting := by
  obtain ⟨fill, hfill, -, hsub⟩ := Uvloop.Threads.lock_cases ht
  refine waiting_of_other hw hsub ?_ (congrArg Uvloop.Threads.loop hs)
  rcases hw.calls t fill hfill with ⟨rfl, -⟩ | ⟨f, req, hc, rfl⟩
  · rfl
  · have hreq : req.own = none := (own_of_serves hc).symm.trans ho
    simp [Uvloop.Fill.callback, hreq, Option.bind_eq_none_iff]

/-- The handles, and what the timer will come to, in every step that is not the end of a call
of this timer. -/
theorem Sound.willRun (h : Sound p) (hq : Arrivals.Lists p.1.waiting p.2.queue)
    (hg : orderly p a) (hs : p.1.step a = some (s', es)) (hf : ∀ t, a ≠ .force t)
    (hl : ∀ t, a = .lock t → (p.1.call t).own = none) :
    Arrivals.Lists s'.waiting (p.1.enqueue a es p.2.queue) ∧
      (s'.WillRun (p.1.enqueue a es p.2.queue) ↔ p.1.WillRun p.2.queue) := by
  obtain ⟨-, -, hacc, hord⟩ := hg
  cases step_cases hs with
  | registerTimer | setTimer | request | addReqFault => exact ⟨hq, Iff.rfl⟩
  | loop a c th les hla ht =>
    have hw : waiting { p.1 with threads := th } = p.1.waiting := by
      cases hla <;> exact waiting_of_quiet ht (by simp) (by simp)
    cases hla <;> exact willRun_of_waiting hq hw rfl rfl rfl
  | force t => exact (hf t rfl).elim
  | addReq t f req th les hc ht | refused t f req th les hc ht =>
    exact willRun_of_waiting hq (waiting_of_quiet ht (by simp) (by simp)) rfl rfl rfl
  | lock t f req th les err hc ht | lockStop t th les hc ht =>
    have ho := hl t rfl
    simp only [enqueue, ho, Option.isSome_none, Bool.false_eq_true, if_false]
    exact willRun_of_waiting hq (waiting_of_lock h.wired ho ht rfl) rfl rfl rfl
  | turn c th les hb ht => exact willRun_of_turn h.wired hq hb ht hord
  | perform _ _ hp =>
    exact hp.willRun h.wired h.tracks hq h.mRepeat_ne_zero h.notEnding hacc
  | expire period hi hb | expireFault period hi hb =>
    refine ⟨hq, willRun_congr ?_ ?_ ?_⟩
    · simp [pending, hb, Body.request, enqueue, waiting]
    · simp [Restarting, hb]
    · have hne : period ≠ 0 := by
        have hpos := h.mRepeat_pos hi
        rw [h.configured.period _ _ hi]
        exact Nat.ne_of_gt hpos
      simp [hi, UvTimer.active, hne]

/-! ## The end of a call -/

/-- As long as no call is in progress, the last one met its condition exactly if the timer will
come to what it asked for. -/
def Foretold (p : Uvtimer × Ledger) : Prop :=
  p.1.NoCommand → ∀ want, p.2.last = some want →
    (p.2.heeded = true ↔ (p.1.WillRun p.2.queue ↔ want = true))

theorem command_loop (les : List (Uvloop.Event Req)) :
    (les.map Event.loop).findSome? Event.command = none := by
  simp [Event.command]

theorem command_returned (les : List (Uvloop.Event Req)) (e : Event) :
    (les.map Event.loop ++ [e]).findSome? Event.command = e.command := by
  rw [List.findSome?_append, command_loop, Option.none_or, List.findSome?_singleton]

theorem handle_returned (es : List Event) (t : ℕ) (f : Api) (ok : Bool) :
    (es ++ [Event.returned t f ok]).filterMap Event.handle = es.filterMap Event.handle := by
  simp [Event.handle]

theorem other_of_own {f : Api} (hc : (s.call t).serves = some (f, req))
    (ho : (s.call t).own = none) :
    (∃ e id, s.call t = .adding e id) ∧ ∀ ok, Event.command (.returned t f ok) = none := by
  rw [own_of_serves hc] at ho
  cases he : s.call t with
  | idle | forcing => simp [he, Caller.serves] at hc
  | starting | restarting | stopping =>
    rw [he] at hc
    obtain ⟨-, rfl⟩ := Prod.mk.inj (Option.some.inj hc)
    cases ho
  | adding e id =>
    rw [he] at hc
    obtain ⟨rfl, -⟩ := Prod.mk.inj (Option.some.inj hc)
    exact ⟨⟨e, id, rfl⟩, fun ok => rfl⟩

theorem Foretold.keep (hf : Foretold p) (he : es.findSome? Event.command = none)
    (hn : s'.NoCommand → p.1.NoCommand)
    (hw : s'.WillRun (p.1.enqueue a es p.2.queue) ↔ p.1.WillRun p.2.queue) :
    Foretold (s', entry p.1 a es p.2) := by
  intro hno want hlast
  simp only [entry, he, Option.none_or, Option.isSome_none, Bool.false_eq_true, if_false]
    at hlast ⊢
  rw [hw]
  exact hf (hn hno) want hlast

theorem foretold_of_return {w : Bool} (he : es.findSome? Event.command = some w)
    (hw : heeds p a ↔ (s'.WillRun (p.1.enqueue a es p.2.queue) ↔ w = true)) :
    Foretold (s', entry p.1 a es p.2) := by
  intro _ want hlast
  simp only [entry, he, Option.some_or, Option.some.injEq, Option.isSome_some, if_true,
    decide_eq_true_eq] at hlast ⊢
  rw [← hlast]
  exact hw

theorem NoCommand.of_update {c c' : Caller} (hc : s.call t = c)
    (hold : c = .idle ∨ ∃ e id, c = .adding e id)
    (h : NoCommand { s with call := update s.call t c' }) : s.NoCommand := by
  intro u
  rcases eq_or_ne u t with rfl | hu
  · rw [hc]
    exact hold
  · simpa [hu] using h u

theorem not_noCommand {c : Caller} (hc : c ≠ .idle) (ho : ∀ e id, c ≠ .adding e id) :
    ¬ NoCommand { s with call := update s.call t c } := by
  intro h
  rcases h t with he | ⟨e, id, he⟩
  · exact hc (by simpa using he)
  · exact ho e id (by simpa using he)

theorem mem_pending (h : req ∈ s.pending queue) : req = .timerStart ∨ req = .timerStop := by
  rcases List.mem_append.mp h with h | h
  · cases hb : s.body <;> simp [hb, Body.request] at h <;> simp [h]
  · obtain ⟨x, -, hx⟩ := List.mem_filterMap.mp h
    obtain ⟨r, -, hr⟩ := Option.bind_eq_some_iff.mp hx
    cases r with
    | timerStart => exact .inl (Option.some.inj hr).symm
    | timerStop => exact .inr (Option.some.inj hr).symm
    | other => cases hr

/-- While no request of the timer is being executed the flag is right. -/
theorem Sound.active_of_flag (h : Sound p) (hf : p.1.bTimerStarted = true)
    (hb : p.1.body.request = none) : p.1.timer.active = true := by
  have ht := h.tracks
  cases he : p.1.body with
  | none =>
    rw [Tracks, he] at ht
    exact (ht : p.1.bTimerStarted = p.1.timer.active) ▸ hf
  | timercb =>
    rw [Tracks, he] at ht
    obtain ⟨-, period, hi⟩ := ht
    have hpos := h.mRepeat_pos hi
    rw [← h.configured.period _ _ hi] at hpos
    rw [hi]
    exact decide_eq_true (Nat.ne_of_gt hpos)
  | ending => exact (h.notEnding he).elim
  | _ => simp [he, Body.request] at hb

theorem Sound.heeds_startTimer (h : Sound p) (hf : p.1.bTimerStarted = true) :
    heeds p (.request t (.startTimer false)) ↔ p.1.WillRun p.2.queue := by
  have hrest : heeds p (.request t (.startTimer false)) ↔
      ((p.1.pending p.2.queue).getLast? = some .timerStop → p.1.Restarting) := by
    simp [heeds, hf]
  rw [hrest]
  cases hl : (p.1.pending p.2.queue).getLast? with
  | none =>
    have hnil := List.getLast?_eq_none_iff.mp hl
    have hreq : p.1.body.request = none := by
      simpa using (List.append_eq_nil_iff.mp hnil).1
    refine iff_of_true (by simp) (.inr ?_)
    rw [hnil]
    exact h.active_of_flag hf hreq
  | some req =>
    have hmem := List.mem_of_getLast? hl
    rcases mem_pending hmem with rfl | rfl
    · refine iff_of_true (by simp) (.inr ?_)
      rw [Ends, hl]
    · have hends : ¬ Ends (p.1.pending p.2.queue) p.1.timer.active := by
        rw [Ends, hl]
        simp
      simp [WillRun, hends, hmem]

theorem Sound.willRun_of_lock (h : Sound p) (hq : Arrivals.Lists p.1.waiting p.2.queue) {f : Api}
    {th : Uvloop.Threads Req} {les : List (Uvloop.Event Req)} {c : Caller} {req' : Req}
    (hd : p.1.threads.loop.dAsync ≠ []) (hc : (p.1.call t).serves = some (f, req))
    (ho : req.own = some req') (ht : p.1.threads.step (.lock t) = some (th, les)) :
    let s' := { p.1 with threads := th, call := update p.1.call t c }
    let queue := p.2.queue ++ (les.map Event.loop).filterMap Event.handle
    Arrivals.Lists s'.waiting queue ∧
      (s'.WillRun queue ↔ req' = .timerStart ∨ p.1.Restarting) := by
  obtain ⟨-, hsub⟩ := h.wired.locking hc ht
  obtain ⟨hl, hf⟩ := waiting_of_submit { p.1 with threads := th, call := update p.1.call t c }
    h.wired hq hd hsub (h.wired.callable hc).1 ho rfl
  refine ⟨hl, ?_⟩
  have hp : pending { p.1 with threads := th, call := update p.1.call t c }
      (p.2.queue ++ (les.map Event.loop).filterMap Event.handle) =
        p.1.pending p.2.queue ++ [req'] := by
    rw [pending, hf, pending, List.append_assoc]
  have hreq : req' = .timerStart ∨ req' = .timerStop := by
    cases req with
    | timerStart => exact .inl (Option.some.inj ho).symm
    | timerStop => exact .inr (Option.some.inj ho).symm
    | other => cases ho
  rw [WillRun, hp, ends_append]
  rcases hreq with rfl | rfl
  · simp
  · simp [Restarting]

/-! ## Whole runs -/

structure Obeying (p : Uvtimer × Ledger) : Prop where
  sound : Sound p
  queued : Arrivals.Lists p.1.waiting p.2.queue
  foretold : Foretold p

theorem Obeying.lock (h : Obeying p) (hg : orderly p (.lock t)) {f : Api}
    {th : Uvloop.Threads Req} {les : List (Uvloop.Event Req)} {req' : Req} {err : LoopErr}
    (hc : (p.1.call t).serves = some (f, req)) (ho : req.own = some req')
    (ht : p.1.threads.step (.lock t) = some (th, les))
    (herr : err = if p.1.threads.loop.dAsync = [] then .busy else .noErr) :
    let s' := { p.1 with threads := th, call := update p.1.call t .idle }
    let es := les.map Event.loop ++ [.returned t f ((p.1.call t).result err)]
    Arrivals.Lists s'.waiting (p.1.enqueue (.lock t) es p.2.queue) ∧
      Foretold (s', entry p.1 (.lock t) es p.2) := by
  have hown : (p.1.call t).own = some req' := (own_of_serves hc).trans ho
  have hd := hg.2.2.1 (by rw [hown]; rfl)
  rw [if_neg hd] at herr
  subst herr
  obtain ⟨hl, hw⟩ := h.sound.willRun_of_lock (c := .idle) h.queued hd hc ho ht
  have henq : p.1.enqueue (.lock t) (les.map Event.loop ++
      [.returned t f ((p.1.call t).result .noErr)]) p.2.queue =
        p.2.queue ++ (les.map Event.loop).filterMap Event.handle := by
    simp only [enqueue, hown, Option.isSome_some, if_true, handle_returned]
  -- it is enough that the condition is what the call has asked for
  have hend : ∀ w, Event.command (.returned t f ((p.1.call t).result .noErr)) = some w →
      (heeds p (.lock t) ↔ ((req' = .timerStart ∨ p.1.Restarting) ↔ w = true)) →
      Foretold ({ p.1 with threads := th, call := update p.1.call t .idle },
        entry p.1 (.lock t)
          (les.map Event.loop ++ [.returned t f ((p.1.call t).result .noErr)]) p.2) := by
    intro w hcommand hheeds
    apply foretold_of_return ((command_returned ..).trans hcommand)
    rw [henq, hw]
    exact hheeds
  dsimp only
  refine ⟨henq ▸ hl, ?_⟩
  cases he : p.1.call t with
  | idle | forcing => simp [he, Caller.serves] at hc
  | starting b =>
    rw [he] at hc hend
    obtain ⟨rfl, rfl⟩ := Prod.mk.inj (Option.some.inj hc)
    obtain rfl : Req.timerStart = req' := Option.some.inj ho
    exact hend true rfl (by simp [heeds, he])
  | restarting =>
    rw [he] at hc hend
    obtain ⟨rfl, rfl⟩ := Prod.mk.inj (Option.some.inj hc)
    obtain rfl : Req.timerStop = req' := Option.some.inj ho
    exact hend true rfl (by simp [heeds, he])
  | stopping =>
    rw [he] at hc hend
    obtain ⟨rfl, rfl⟩ := Prod.mk.inj (Option.some.inj hc)
    obtain rfl : Req.timerStop = req' := Option.some.inj ho
    exact hend false rfl (by simp [heeds, he])
  | adding e id =>
    rw [he] at hc
    obtain ⟨-, rfl⟩ := Prod.mk.inj (Option.some.inj hc)
    cases ho

theorem Obeying.request (h : Obeying p) {f : Api} (hi : p.1.Idle t) :
    let s' := { p.1 with call := update p.1.call t (p.1.begin f) }
    let es := if p.1.begin f = .idle then [Event.returned t f true] else []
    Foretold (s', entry p.1 (.request t f) es p.2) := by
  dsimp only
  have hkeep : ∀ c, p.1.begin f = c → c ≠ .idle →
      (NoCommand { p.1 with call := update p.1.call t c } → p.1.NoCommand) →
      Foretold ({ p.1 with call := update p.1.call t (p.1.begin f) }, entry p.1 (.request t f)
        (if p.1.begin f = .idle then [.returned t f true] else []) p.2) := by
    rintro c rfl hne hn
    rw [if_neg hne]
    exact h.foretold.keep rfl hn Iff.rfl
  have hbusy : ∀ c : Caller, c ≠ .idle → (∀ e id, c ≠ .adding e id) →
      NoCommand { p.1 with call := update p.1.call t c } → p.1.NoCommand :=
    fun c hc ho hn => (not_noCommand hc ho hn).elim
  cases f with
  | stopTimer => exact hkeep .stopping rfl (by simp) (hbusy _ (by simp) (by simp))
  | other e id =>
    exact hkeep (.adding e id) rfl (by simp) fun hn => hn.of_update hi.1 (.inl rfl)
  | startTimer b =>
    rcases p.1.begin_startTimer b with ⟨-, hb⟩ | ⟨hf, hb⟩
    · exact hkeep _ hb (by simp) (hbusy _ (by simp) (by simp))
    · cases b with
      | true => exact hkeep _ hb (by simp) (hbusy _ (by simp) (by simp))
      | false =>
        rw [if_neg Bool.false_ne_true] at hb
        rw [if_pos hb]
        apply foretold_of_return (w := true) rfl
        rw [h.sound.heeds_startTimer hf, iff_true_right rfl]
        exact Iff.rfl

theorem Obeying.step (h : Obeying p) (hg : orderly p a) (hs : p.1.step a = some (s', es)) :
    Obeying (s', entry p.1 a es p.2) := by
  have hsound := h.sound.step hg hs
  have hquiet := h.sound.willRun h.queued hg hs
  suffices hrest : Arrivals.Lists s'.waiting (p.1.enqueue a es p.2.queue) ∧
      Foretold (s', entry p.1 a es p.2) from ⟨hsound, hrest.1, hrest.2⟩
  cases step_cases hs with
  | registerTimer | setTimer | addReqFault | expire | expireFault =>
    obtain ⟨hl, hw⟩ := hquiet (by simp) (by simp)
    exact ⟨hl, h.foretold.keep rfl id hw⟩
  | loop a c th les hla ht =>
    obtain ⟨hl, hw⟩ := hquiet (by cases hla <;> simp) (by cases hla <;> simp)
    exact ⟨hl, h.foretold.keep (command_loop les) id hw⟩
  | turn c th les | addReq t f req th les =>
    obtain ⟨hl, hw⟩ := hquiet (by simp) (by simp)
    exact ⟨hl, h.foretold.keep (command_loop les) id hw⟩
  | request t f hi => exact ⟨h.queued, h.request hi⟩
  | force t =>
    refine ⟨h.queued, fun hn => ?_⟩
    rcases hn t with he | ⟨e, id, he⟩ <;> simp at he
  | refused t f req th les hc ht hr =>
    obtain ⟨hl, hw⟩ := hquiet (by simp) (by simp)
    have ho : (p.1.call t).own = none := by
      by_contra hne
      cases hr.symm.trans (hg.2.2.1 (Option.isSome_iff_ne_none.mpr hne))
    obtain ⟨hadd, hcommand⟩ := other_of_own hc ho
    refine ⟨hl, h.foretold.keep ?_ (fun hn => hn.of_update rfl (.inr hadd)) hw⟩
    rw [command_returned, hcommand]
  | lock t f req th les err hc ht herr =>
    cases ho : req.own with
    | some req' => exact h.lock hg hc ho ht herr
    | none =>
      have ho' := (own_of_serves hc).trans ho
      obtain ⟨hl, hw⟩ := hquiet (by simp) (by simpa using ho')
      obtain ⟨hadd, hcommand⟩ := other_of_own hc ho'
      refine ⟨hl, h.foretold.keep ?_ (fun hn => hn.of_update rfl (.inr hadd)) hw⟩
      rw [command_returned, hcommand]
  | lockStop t th les hc ht =>
    obtain ⟨hl, hw⟩ := hquiet (by simp) (by simp [Caller.own, hc])
    exact ⟨hl, h.foretold.keep (command_loop les) id hw⟩
  | perform _ _ hp =>
    obtain ⟨hl, hw⟩ := hquiet (by simp) (by simp)
    refine ⟨hl, h.foretold.keep ?_ (fun hn => ?_) hw⟩
    · cases hp with
      | startAgain _ les => exact command_loop les
      | _ => rfl
    · cases hp <;> exact hn

theorem obeying_of_reach (h : commanded.Reach orderly tr p) : Obeying p := by
  refine h.stateInvariant ?_ ?_
  · rintro ⟨s, g⟩ ⟨⟨garbage, bit, rfl⟩, rfl⟩
    refine ⟨⟨wired_create garbage bit, ⟨fun _ => unstarted_create garbage bit, by simp [create]⟩,
      tracks_create garbage bit, by simp, by simp [create]⟩, ?_, by simp [Foretold]⟩
    exact Arrivals.lists_nil fun x => by
      simp [waiting, Uvloop.carried, Uvloop.carries, create, Uvloop.create]
  · rintro tr p a ⟨s', g'⟩ es - h hg hs
    obtain ⟨hs, rfl⟩ := System.observed_step.mp hs
    exact h.step hg hs

theorem Quiescent.willRun (hq : s.Quiescent) (hl : Arrivals.Lists s.waiting queue) :
    s.WillRun queue ↔ s.timer.active = true := by
  have hnil : s.pending queue = [] := by
    rw [pending, hq.body, hl.filterMap_eq_nil.mpr hq.waiting]
    rfl
  rw [WillRun, hnil, ends_nil]
  simp

/-- When nothing is pending, the timer has obeyed the last call exactly if the call met its
condition. -/
theorem Obeying.obeys_iff (h : Obeying p) (hq : p.1.Quiescent) {want : Bool}
    (hlast : p.2.last = some want) : p.1.timer.active = want ↔ p.2.heeded = true := by
  rw [h.foretold hq.calls want hlast, hq.willRun h.queued, Bool.eq_iff_iff]

/-- Where every call has met the condition, so has the last. -/
theorem heeded_of_reach {G : Uvtimer × Ledger → Act → Prop}
    (hG : commanded.Always (fun p a => orderly p a ∧ G p a) heeds)
    (h : commanded.Reach (fun p a => orderly p a ∧ G p a) tr p) : p.2.heeded = true := by
  refine h.stateInvariant (I := fun p => p.2.heeded = true) ?_ ?_
  · rintro p ⟨-, hp⟩
    rw [hp]
  · intro tr p a p' es hr hh hg hs
    have hheeds := hG tr p a p' es hr hg hs
    rw [(System.observed_step.mp hs).2]
    simp [entry, hh, hheeds]

/-- The timer obeys the last command in the runs whose calls all meet the condition, and in any
run it has obeyed the last command exactly if that call has met it. -/
theorem obeysLast_of_heeds (G : Uvtimer × Ledger → Act → Prop) :
    (commanded.Always (fun p a => orderly p a ∧ G p a) heeds → ObeysLast G) ∧
      ∀ tr p, commanded.Reach orderly tr p → p.1.Quiescent → ∀ want, p.2.last = some want →
        (p.1.timer.active = want ↔ p.2.heeded = true) := by
  constructor
  · intro hG tr p h hq want hlast
    have ho := obeying_of_reach (h.mono fun _ _ hg => hg.1)
    exact (ho.obeys_iff hq hlast).mpr (heeded_of_reach hG h)
  · intro tr p h hq want hlast
    exact (obeying_of_reach h).obeys_iff hq hlast

theorem idle_of_onlyThread {u : ℕ} (hu : u ≠ t) (hi : s.call u = .idle) (hg : onlyThread t a)
    (hs : s.step a = some (s', es)) : s'.call u = .idle := by
  have hput : ∀ {v : ℕ} {c : Caller}, (u = v → c = .idle) → update s.call v c u = .idle := by
    intro v c hc
    rcases eq_or_ne u v with rfl | hv
    · simpa using hc rfl
    · simpa [hv] using hi
  cases step_cases hs with
  | request v f => exact hput fun he => (hu (he.trans hg)).elim
  | force v hc =>
    apply hput
    intro he
    subst he
    cases hi.symm.trans hc
  | refused | lock => exact hput fun _ => rfl
  | perform _ _ hp => cases hp <;> exact hi
  | _ => exact hi

/-- The timer runs. `StopTimer` has been called and not been executed when `startTimer` finds
the flag still set and returns true. -/
theorem not_obeysLast : ¬ ObeysLast fun _ a => onlyThread 1 a := by
  intro hobeys
  obtain ⟨tr, p, hr, hp⟩ := System.exists_run_of_exec (M := commanded)
    (G := fun p a => orderly p a ∧ onlyThread 1 a)
    (s := (create (fun _ => .loopStop) false, ⟨false, [], none, true⟩))
    (startRequested 10 ++ execute 0 2 ++
      [.request 1 .stopTimer, .addReq 1, .lock 1, .request 1 (.startTimer false)] ++ execute 1 3)
    (p := fun p _ => decide (p.1.call 1 = .idle ∧ p.1.body = .none ∧ p.2.queue = [] ∧
      p.2.last = some true ∧ p.1.timer.active = false)) (by decide +kernel)
  obtain ⟨hcall, hb, hqueue, hlast, hactive⟩ := of_decide_eq_true hp
  have hreach : commanded.Reach (fun p a => orderly p a ∧ onlyThread 1 a) tr p :=
    ⟨_, ⟨⟨_, _, rfl⟩, rfl⟩, hr⟩
  have hl := (obeying_of_reach (hreach.mono fun _ _ hg => hg.1)).queued
  rw [hqueue] at hl
  have hidle : ∀ u ≠ 1, p.1.call u = .idle := by
    intro u hu
    refine hr.stateInvariant (I := fun p => p.1.call u = .idle) rfl ?_
    rintro p a p' es hi ⟨-, hg⟩ hs
    exact idle_of_onlyThread hu hi hg (System.observed_step.mp hs).1
  have hquiet : p.1.Quiescent := by
    refine ⟨hl.filterMap_eq_nil.mp rfl, by rw [hb]; rfl, fun u => ?_⟩
    rcases eq_or_ne u 1 with rfl | hu
    · exact .inl hcall
    · exact .inl (hidle u hu)
  cases (hobeys tr p hreach hquiet true hlast).symm.trans hactive

end UvWrapper.Uvtimer
