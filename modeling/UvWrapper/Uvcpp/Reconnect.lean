import UvWrapper.Uvcpp.Link

/-! # Reconnecting, and stopping

The close callback dials again when `_autoReconnect` is set and `_exStopLoop` is not. No
function sets `_exStopLoop`, so a stop does not keep the callback from dialling; and a
failed attempt never gets as far as a close, so that no attempt follows it.
-/

namespace UvWrapper.Uvcpp

open Transition

variable {s s' s'' : Uvcpp} {a : Act} {es tr tr' : List Event} {n status nread err : ℤ}
  {G : Uvcpp → Act → Prop}

theorem exStopLoop_of_reach (h : client.Reach G tr s) : s.exStopLoop = false := by
  refine h.stateInvariant (I := fun s => s.exStopLoop = false) ?_
    fun _ s a s' es _ hi _ hs => (step_cases hs).frame.exStopLoop.trans hi
  rintro s ⟨blk, -, rfl⟩
  rfl

theorem running_of_reach (h : client.Reach G tr s) (hp : s.point ≠ .down) : s.Running :=
  ⟨linkInv_of_reach h, hp⟩

/-! ## Giving up -/

/-- A connect request is outstanding, the connection is established, or a `uv_close` is
outstanding whose callback will call `connect`. -/
def Trying (s : Uvcpp) : Prop :=
  s.tcp = .connecting ∨ s.statusNormal = true ∨
    (s.tcp = .closing ∧ s.tcpHandle = true ∧ s.autoReconnect = true ∧ s.exStopLoop = false)

instance (s : Uvcpp) : Decidable s.Trying :=
  inferInstanceAs (Decidable (_ ∨ _ ∨ _ ∧ _ ∧ _ ∧ _))

/-- `_autoReconnect` stays true and no `EV_STOP_LOOP` is processed. -/
def keepsOn (s : Uvcpp) : Act → Prop
  | .setAutoReconnect b => b = true
  | .process _ => ∀ rest, s.point ≠ .batch (.stopLoop :: rest)
  | _ => True

/-- One successful call of `connect` and `run` on a fresh client lead to `s`. -/
def Started (s : Uvcpp) : Prop :=
  ∃ s₀ s₁ es₁ es₂ host port, Init s₀ ∧ s₀.step (.connect host port 0) = some (s₁, es₁) ∧
    s₁.step .run = some (s, es₂)

/-- In the runs whose steps satisfy `G` a started client is, in every state it reaches,
trying. -/
def NeverGivesUp (G : Uvcpp → Act → Prop) : Prop :=
  ∀ s₀ tr s, Started s₀ → client.Run (fun s a => keepsOn s a ∧ G s a) s₀ tr s → s.Trying

/-- No connect callback reports an error, and no close callback gets one from
`uv_tcp_connect`. -/
def attemptsSucceed (_ : Uvcpp) : Act → Prop
  | .connectCb status => status = 0
  | .closeCb err => err = 0
  | _ => True

theorem Running.trying_iff (h : s.Running) (ha : s.autoReconnect = true)
    (hx : s.exStopLoop = false) :
    s.Trying ↔ s.tcp = .connecting ∨ s.tcp = .connected ∨ s.tcp = .closing := by
  simp only [Trying, h.link.ok.normal_iff, ha, hx, and_true]
  exact or_congr_right (or_congr_right (and_iff_left_of_imp h.link.ok.handle_of_closing))

theorem Running.not_trying (h : s.Running) (hf : Final s.tcp) : ¬ s.Trying := by
  simp only [Trying, h.link.ok.normal_iff]
  rcases hf with hf | hf | hf <;> simp [hf]

structure TryingInv (s : Uvcpp) : Prop where
  running : s.Running
  auto : s.autoReconnect = true
  notStopped : s.exStopLoop = false
  trying : s.tcp = .connecting ∨ s.tcp = .connected ∨ s.tcp = .closing

theorem TryingInv.step (h : s.TryingInv) (hk : keepsOn s a) (hg : attemptsSucceed s a)
    (hs : s.step a = some (s', es)) : s'.TryingInv := by
  have hf := (step_cases hs).frame
  refine ⟨h.running.step hs, hf.autoReconnect.trans ?_, hf.exStopLoop.trans h.notStopped, ?_⟩
  · cases a with
    | setAutoReconnect b => exact hk
    | _ => exact h.auto
  · obtain ⟨-, hm⟩ := h.running.link.step hs
    generalize s'.tcp = st', es.filter Event.isLink = fs at hm
    cases hm with
    | stay => exact h.trying
    | dial _ _ _ hp => exact (h.running.started hp).elim
    | established => exact .inr (.inl rfl)
    | refused _ _ hn => exact (hn hg).elim
    | close => exact .inr (.inr rfl)
    | closed _ _ hc => simp [h.auto, h.notStopped] at hc
    | redial err => exact .inl (if_pos hg)

/-- A failed attempt leaves the handle in a state that nothing leaves. -/
theorem Running.final_of_failed (h : s.Running) (hg : ¬ attemptsSucceed s a)
    (hs : s.step a = some (s', es)) : Final s'.tcp := by
  obtain ⟨-, hm⟩ := h.link.step hs
  generalize s'.tcp = st', es.filter Event.isLink = fs at hm
  cases hm with
  | stay a hc hn =>
    cases a with
    | connectCb status => exact (hn status rfl).elim
    | closeCb err => exact (hc err rfl).elim
    | _ => exact (hg trivial).elim
  | dial _ _ _ hp => exact (h.started hp).elim
  | established => exact (hg rfl).elim
  | refused => exact .inl rfl
  | close a _ hc hn =>
    cases a with
    | connectCb status => exact (hn status rfl).elim
    | closeCb err => exact (hc err rfl).elim
    | _ => exact (hg trivial).elim
  | closed => exact .inr (.inr rfl)
  | redial err => exact .inr (.inl (if_neg hg))

theorem Running.gave_up (h : s.Running) (hf : Final s.tcp)
    (hr : client.Run (anyStep Uvcpp Act) s tr s') : ¬ s'.Trying := by
  obtain ⟨h', hl⟩ := refines_life.run h hr
  have he : s'.tcp = s.tcp := final_stays hf hl
  exact h'.not_trying (he ▸ hf)

theorem Started.tryingInv (h : Started s) : s.TryingInv := by
  obtain ⟨s₀, s₁, es₁, es₂, host, port, ⟨blk, hb, rfl⟩, h₁, h₂⟩ := h
  have hc : client.Reach (anyStep Uvcpp Act) [] (create blk) := .start ⟨blk, hb, rfl⟩
  have hr₁ : client.Reach (anyStep Uvcpp Act) ([] ++ es₁) s₁ :=
    hc.step (a := Act.connect host port 0) trivial h₁
  have hr : client.Reach (anyStep Uvcpp Act) ([] ++ es₁ ++ es₂) s :=
    hr₁.step (a := Act.run) trivial h₂
  obtain ⟨rfl, -⟩ := Prod.mk.inj (Option.some.inj h₁)
  obtain ⟨rfl, -⟩ := Prod.mk.inj (Option.some.inj h₂)
  exact ⟨running_of_reach hr nofun, rfl, rfl, .inl rfl⟩

/-- A started client never gives up in the runs of `G` if and only if all their attempts
succeed; after one that failed no client ever tries again. -/
theorem neverGivesUp_iff (G : Uvcpp → Act → Prop) :
    (NeverGivesUp G ↔ ∀ s₀ tr s a s' es, Started s₀ →
        client.Run (fun s a => keepsOn s a ∧ G s a) s₀ tr s → keepsOn s a → G s a →
        s.step a = some (s', es) → attemptsSucceed s a) ∧
      ∀ tr s a s' es, client.Reach (anyStep Uvcpp Act) tr s → s.point ≠ .down →
        s.step a = some (s', es) → ¬ attemptsSucceed s a →
        ∀ tr' s'', client.Run (anyStep Uvcpp Act) s' tr' s'' → ¬ s''.Trying := by
  constructor
  · constructor
    · intro hnever s₀ tr s a s' es h₀ hr hk hg hs
      by_contra hfail
      have hrun : s.Running := h₀.tryingInv.running.run hr
      exact (hrun.step hs).not_trying (hrun.final_of_failed hfail hs)
        (hnever s₀ (tr ++ es) s' h₀ (hr.snoc ⟨hk, hg⟩ hs))
    · intro hok s₀ tr s h₀ hr
      have hi : s.TryingInv := hr.induct (I := fun _ => TryingInv) h₀.tryingInv
        fun tr s a s' es hr hi hg hs => hi.step hg.1 (hok s₀ tr s a s' es h₀ hr hg.1 hg.2 hs) hs
      exact (hi.running.trying_iff hi.auto hi.notStopped).mpr hi.trying
  · intro tr s a s' es h hp hs hg tr' s'' hr
    have hrun := running_of_reach h hp
    exact (hrun.step hs).gave_up (hrun.final_of_failed hg hs) hr

/-- The first attempt is refused: `inner_close` returns at once, since there is no
normal status to leave. -/
theorem not_neverGivesUp : ¬ NeverGivesUp (anyStep Uvcpp Act) := by
  intro h
  have h₀ : Started { (connect { create ⟨1, List.replicate clientBufferLen 0⟩ with
      addr := some ("127.0.0.1", 50000) } 0).1 with async := .opened, point := .polling } :=
    ⟨_, _, _, _, "127.0.0.1", 50000, ⟨_, List.length_replicate, rfl⟩, rfl, rfl⟩
  have ht := h _ _ _ h₀ (.single (a := .connectCb (-111)) ⟨trivial, trivial⟩ rfl)
  revert ht
  decide +kernel

/-! ## Dialling after a stop -/

def Event.isDial : Event → Bool
  | .tcpInit _ | .tcpConnect _ => true
  | _ => false

/-- Once a step has executed `inner_stop`, no run whose steps satisfy `G` dials. -/
def StaysStopped (G : Uvcpp → Act → Prop) : Prop :=
  ∀ tr s a s' es, client.Reach (anyStep Uvcpp Act) tr s → s.step a = some (s', es) →
    .innerStop ∈ es → ∀ tr' s'', client.Run G s' tr' s'' → ∀ e ∈ tr', e.isDial = false

/-- `_autoReconnect` is false whenever the close callback of the connection runs. -/
def noReconnect (s : Uvcpp) : Act → Prop
  | .closeCb _ => s.autoReconnect = false
  | _ => True

/-- A running client dials in the close callback with `_autoReconnect` set, and nowhere
else. -/
theorem Running.dials_iff (h : s.Running) (hx : s.exStopLoop = false)
    (hs : s.step a = some (s', es)) : (∃ e ∈ es, e.isDial = true) ↔ ¬ noReconnect s a := by
  have hf : (∃ e ∈ es, e.isDial = true) ↔ ∃ e ∈ es.filter Event.isLink, e.isDial = true := by
    simp only [List.mem_filter, and_assoc]
    refine exists_congr fun e => and_congr_right fun _ => (and_iff_right_of_imp fun hd => ?_).symm
    cases e <;> first | rfl | cases hd
  rw [hf]
  obtain ⟨-, hm⟩ := h.link.step hs
  generalize s'.tcp = st', es.filter Event.isLink = fs at hm
  cases hm with
  | stay a hc =>
    cases a with
    | closeCb err => exact (hc err rfl).elim
    | _ => simp [noReconnect]
  | dial _ _ _ hp => exact (h.started hp).elim
  | established | refused => simp [noReconnect, Event.isDial]
  | close a _ hc =>
    cases a with
    | closeCb err => exact (hc err rfl).elim
    | _ => simp [noReconnect, Event.isDial]
  | closed err _ hc =>
    have ha : s.autoReconnect = false := by simpa [hx] using hc
    simp [noReconnect, ha]
  | redial err _ hc =>
    have ha : s.autoReconnect = true := by simpa [hx] using hc
    simp [noReconnect, ha, Event.isDial]

theorem innerStop_not_mem_write (s : Uvcpp) (n : ℤ) : .innerStop ∉ (s.write n).2 := by
  unfold write
  split
  · simp
  · dsimp only; split <;> simp

theorem innerStop_not_mem_innerClose (s : Uvcpp) : .innerStop ∉ s.innerClose.2 := by
  unfold innerClose
  split <;> simp

theorem StepCases.of_innerStop (h : StepCases s a s' es) (he : .innerStop ∈ es) :
    ∃ rest n, a = .process n ∧ s.point = .batch (.stopLoop :: rest) := by
  cases h with
  | process ev rest n hp =>
    cases ev with
    | send => exact (innerStop_not_mem_write _ _ he).elim
    | closeConn => exact (innerStop_not_mem_innerClose _ he).elim
    | stopLoop => exact ⟨rest, n, rfl, hp⟩
    | null => cases he
  | connect | append => simp [Uvcpp.connect, Uvcpp.append] at he
  | connectCb status =>
    unfold connected at he
    split at he
    · simp at he
    · simp [innerStop_not_mem_innerClose] at he
  | readCb nread =>
    unfold readDone at he
    split at he
    · simp [innerStop_not_mem_innerClose] at he
    · split at he <;> simp at he
  | closeCb err =>
    unfold closed at he
    split at he
    · dsimp only at he
      split at he <;> simp [Uvcpp.connect] at he
    · simp at he
  | insert | close | stop => simp at he
  | run | setAutoReconnect | asyncSend | asyncEnter | swap | asyncReturn | asyncCloseCb
  | leave => cases he

theorem started_of_innerStop (h : client.Reach G tr s) (he : .innerStop ∈ tr) :
    s.point ≠ .down := by
  refine h.invariant (I := fun tr s => .innerStop ∈ tr → s.point ≠ .down)
    (fun _ _ he => absurd he List.not_mem_nil) ?_ he
  intro tr s a s' es _ hi _ hs he hd
  have hp := (step_cases hs).frame.down hd
  rcases List.mem_append.mp he with he | he
  · exact hi he hp
  · obtain ⟨rest, -, -, hp'⟩ := (step_cases hs).of_innerStop he
    cases hp.symm.trans hp'

/-- A step after a stop dials if and only if it runs the close callback of the connection
with `_autoReconnect` set. -/
theorem dials_iff_of_innerStop (h : client.Reach G tr s) (he : .innerStop ∈ tr)
    (hs : s.step a = some (s', es)) : (∃ e ∈ es, e.isDial = true) ↔ ¬ noReconnect s a :=
  (running_of_reach h (started_of_innerStop h he)).dials_iff (exStopLoop_of_reach h) hs

/-- A stopped client does not dial in the runs of `G` if and only if every close callback
of these runs finds `_autoReconnect` false. -/
theorem staysStopped_iff (G : Uvcpp → Act → Prop) :
    StaysStopped G ↔ ∀ tr s a s' es, client.Reach (anyStep Uvcpp Act) tr s →
      s.step a = some (s', es) → .innerStop ∈ es → ∀ tr' s₁, client.Run G s' tr' s₁ →
      ∀ b s₂ es₁, G s₁ b → s₁.step b = some (s₂, es₁) → noReconnect s₁ b := by
  have hdials : ∀ {tr s a s' es}, client.Reach (anyStep Uvcpp Act) tr s →
      s.step a = some (s', es) → .innerStop ∈ es → ∀ {tr' s₁}, client.Run G s' tr' s₁ →
      ∀ {b s₂ es₁}, s₁.step b = some (s₂, es₁) →
      ((∃ e ∈ es₁, e.isDial = true) ↔ ¬ noReconnect s₁ b) := by
    intro tr s a s' es h hs he tr' s₁ hr b s₂ es₁ hs₁
    have h₁ : client.Reach (anyStep Uvcpp Act) (tr ++ es ++ tr') s₁ :=
      (h.step trivial hs).trans (hr.mono fun _ _ _ => trivial)
    exact dials_iff_of_innerStop h₁ (List.mem_append_left _ (List.mem_append_right _ he)) hs₁
  constructor
  · intro hstays tr s a s' es h hs he tr' s₁ hr b s₂ es₁ hg hs₁
    refine not_not.mp (mt (hdials h hs he hr hs₁).mpr ?_)
    rintro ⟨e, hm, hd⟩
    have hno := hstays tr s a s' es h hs he _ _ (hr.snoc hg hs₁) e (List.mem_append_right _ hm)
    exact Bool.false_ne_true (hno.symm.trans hd)
  · intro hno tr s a s' es h hs he tr' s'' hr
    refine hr.induct (I := fun tr' _ => ∀ e ∈ tr', e.isDial = false) nofun ?_
    intro tr₁ s₁ b s₂ es₁ hr₁ hd hg hs₁ e hm
    rcases List.mem_append.mp hm with hm | hm
    · exact hd e hm
    · have hn := mt (hdials h hs he hr₁ hs₁).mp
        (not_not.mpr (hno tr s a s' es h hs he tr₁ s₁ hr₁ b s₂ es₁ hg hs₁))
      simpa using fun hdial => hn ⟨e, hm, hdial⟩

/-- A stop on an established connection with `_autoReconnect` set: the close callback,
which the loop still runs, dials again. -/
theorem not_staysStopped : ¬ StaysStopped (anyStep Uvcpp Act) := by
  intro h
  obtain ⟨tr, s, hr, hp⟩ := System.exists_run_of_exec (M := client)
    (G := anyStep Uvcpp Act) (s := create ⟨1, List.replicate clientBufferLen 0⟩)
    [.connect "127.0.0.1" 50000 0, .run, .connectCb 0, .stop 1, .asyncSend 1, .asyncEnter,
      .swap]
    (p := fun s _ => (Uvcpp.step s (.process 0)).any fun q : Uvcpp × List Event =>
      decide (.innerStop ∈ q.2) &&
        (q.1.step (.closeCb 0)).any fun r : Uvcpp × List Event =>
          decide (.tcpInit .closed ∈ r.2))
    (by decide +kernel)
  cases hs : s.step (.process 0) with
  | none => simp [hs] at hp
  | some q =>
    cases hc : q.1.step (.closeCb 0) with
    | none => simp [hs, hc] at hp
    | some r =>
      obtain ⟨he, hd⟩ : .innerStop ∈ q.2 ∧ .tcpInit .closed ∈ r.2 := by
        simpa [hs, hc] using hp
      have hreach : client.Reach (anyStep Uvcpp Act) tr s :=
        ⟨_, ⟨_, List.length_replicate, rfl⟩, hr⟩
      have hrun : client.Run (anyStep Uvcpp Act) q.1 r.2 r.1 :=
        .single (a := Act.closeCb 0) trivial hc
      exact absurd (h tr s _ q.1 q.2 hreach hs he _ _ hrun _ hd) (by decide)

end UvWrapper.Uvcpp
