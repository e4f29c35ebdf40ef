import UvWrapper.Uvcpp.Works

/-! # Waking the loop

A caller inserts its event under a lock and signals the async handle afterwards, under none;
the signal coalesces with one that is pending, and the callback clears it before it takes the
map. An event in the map nevertheless always has a drain ahead of it: the callback that is to
take it is signalled or has been entered, or the caller that will signal it is on its way.
-/

namespace UvWrapper.Uvcpp

open Function OrderedMap Transition

variable {s s' s'' : Uvcpp} {a : Act} {es tr tr' : List Event} {k : ℤ} {ev u : EventType}
  {t : ℕ} {G : Uvcpp → Act → Prop}

/-- The async handle is signalled, or its callback has been entered and has not swapped the
map, or a caller has inserted an event and not yet called `uv_async_send`. -/
def Awake (s : Uvcpp) : Prop :=
  s.asyncSignal = true ∨ s.point = .entered ∨ ∃ t ev, s.caller t = .inserted ev

/-- The key and the event that a step inserts. -/
def insertion (s : Uvcpp) : Act → Option (ℤ × EventType)
  | .insert _ => some (sizeKey s.works, .send)
  | .close _ => some (mediumKey, .closeConn)
  | .stop _ => some (highKey, .stopLoop)
  | _ => none

def nextSignal (s : Uvcpp) : Act → Bool
  | .asyncSend _ => true
  | .asyncEnter => false
  | _ => s.asyncSignal

/-! ## One step -/

structure AsyncFrame (s : Uvcpp) (a : Act) (s' : Uvcpp) (es : List Event) : Prop where
  signal : s'.asyncSignal = s.nextSignal a
  opened : s.async = .opened → .innerStop ∉ es → s'.async = .opened

theorem StepCases.asyncFrame (h : StepCases s a s' es) : AsyncFrame s a s' es := by
  cases h with
  | run => exact ⟨rfl, fun _ _ => rfl⟩
  | append t buf re ma => rw [append_frame]; exact ⟨rfl, fun h _ => h⟩
  | process ev rest n hp =>
    cases ev with
    | send => simp only [Uvcpp.process]; rw [write_frame]; exact ⟨rfl, fun h _ => h⟩
    | closeConn => simp only [Uvcpp.process]; rw [innerClose_frame]; exact ⟨rfl, fun h _ => h⟩
    | stopLoop =>
      simp only [Uvcpp.process]
      rw [innerStop_frame, innerClose_frame]
      exact ⟨rfl, fun _ hn => (hn List.mem_cons_self).elim⟩
    | null => exact ⟨rfl, fun h _ => h⟩
  | connectCb status =>
    unfold connected
    split
    · exact ⟨rfl, fun h _ => h⟩
    · dsimp only; rw [innerClose_frame]; exact ⟨rfl, fun h _ => h⟩
  | readCb nread =>
    unfold readDone
    split
    · dsimp only; rw [innerClose_frame]; exact ⟨rfl, fun h _ => h⟩
    · split <;> exact ⟨rfl, fun h _ => h⟩
  | closeCb err =>
    unfold closed
    split
    · dsimp only; split <;> exact ⟨rfl, fun h _ => h⟩
    · exact ⟨rfl, fun h _ => h⟩
  | asyncCloseCb _ ha => exact ⟨rfl, fun h _ => by cases h.symm.trans ha⟩
  | _ => exact ⟨rfl, fun h _ => h⟩

theorem inOrder_empty : inOrder (∅ : Works) = [] := rfl

theorem StepCases.awake (h : StepCases s a s' es) (hw : inOrder s.works ≠ [] → s.Awake) :
    inOrder s'.works ≠ [] → s'.Awake := by
  have hf := h.frame
  have hsig := h.asyncFrame.signal
  intro hne
  rw [Awake, hsig, hf.point, hf.caller]
  rw [hf.works] at hne
  cases h with
  | insert t | close t | stop t => exact .inr (.inr ⟨t, _, update_self ..⟩)
  | asyncSend => exact .inl rfl
  | asyncEnter => exact .inr (.inl rfl)
  | swap => exact (hne inOrder_empty).elim
  | append t _ _ _ _ hc =>
    rcases hw hne with h | h | ⟨u, ev, h⟩
    · exact .inl h
    · exact .inr (.inl h)
    · have hut : u ≠ t := fun e => by cases (e ▸ h).symm.trans hc
      exact .inr (.inr ⟨u, ev, (update_of_ne hut ..).trans h⟩)
  | run hp | asyncReturn hp | leave hp | process _ _ _ hp =>
    rcases hw hne with h | h | h
    · exact .inl h
    · cases hp.symm.trans h
    · exact .inr (.inr h)
  | _ => exact hw hne

theorem awake_of_reach (h : client.Reach G tr s) : inOrder s.works ≠ [] → s.Awake := by
  refine h.stateInvariant (I := fun s => inOrder s.works ≠ [] → s.Awake) ?_
    fun _ s a s' es _ hi _ hs => (step_cases hs).awake hi
  rintro s ⟨blk, -, rfl⟩ hne
  exact (hne inOrder_empty).elim

theorem opened_of_reach (h : client.Reach G tr s) (hp : s.point ≠ .down)
    (hn : .innerStop ∉ tr) : s.async = .opened := by
  refine h.invariant (I := fun tr s => s.point ≠ .down → .innerStop ∉ tr → s.async = .opened)
    ?_ ?_ hp hn
  · rintro s ⟨blk, -, rfl⟩ hp
    exact (hp rfl).elim
  · intro tr s a s' es _ hi _ hs hp hn
    rw [List.mem_append, not_or] at hn
    have hc := step_cases hs
    by_cases hd : s.point = .down
    · have hf := hc.frame
      cases hc with
      | run => rfl
      | asyncEnter h | swap h | process _ _ _ h | asyncReturn h | leave h =>
        cases hd.symm.trans h
      | _ => exact (hp (hf.point.trans hd)).elim
    · exact hc.asyncFrame.opened (hi hd hn.1) hn.2

/-! ## Between two drains -/

theorem getElem?_of_insertion (hs : s.step a = some (s', es))
    (ha : s.insertion a = some (k, ev)) : s'.works[k]? = some ((s.works[k]?).getD ev) := by
  rw [(step_cases hs).frame.works]
  cases a with
  | insert | close | stop =>
    obtain ⟨rfl, rfl⟩ := Prod.mk.inj (Option.some.inj ha)
    exact getElem?_insertIfNew_self
  | _ => cases ha

/-- Only a drain takes an entry out of the map. -/
theorem getElem?_of_run (hr : client.Run (fun s b => G s b ∧ b ≠ .swap) s tr s')
    (hk : s.works[k]? = some u) : s'.works[k]? = some u := by
  refine hr.stateInvariant (I := fun s => s.works[k]? = some u) hk fun s b s' es hi hg hs => ?_
  rw [(step_cases hs).frame.works]
  cases b with
  | swap => exact (hg.2 rfl).elim
  | insert | close | stop => exact getElem?_insertIfNew_of_some hi
  | _ => exact hi

/-- What keeps the events in the map from being forgotten, in a state that a history has led
to. -/
structure NoLostWakeup (s : Uvcpp) : Prop where
  awake : inOrder s.works ≠ [] → s.Awake
  /-- A pending signal is answered: once the loop polls, the callback can be entered. -/
  answered : s.asyncSignal = true → s.point = .polling → ∃ s', s.step .asyncEnter = some (s', [])
  /-- With nobody inside a call and no signal or callback outstanding there is no event. -/
  settled : (∀ t, s.caller t = .idle) → s.asyncSignal = false → s.point ≠ .entered →
    inOrder s.works = []
  /-- An insertion leaves an event under its key. -/
  inserted : ∀ a s' es k ev, s.step a = some (s', es) → s.insertion a = some (k, ev) →
    s'.works[k]? = some ((s.works[k]?).getD ev)
  /-- The next drain takes all that is in the map, with what is added until then. -/
  drained : ∀ tr' s₁ s₂ es, client.Run (fun _ b => b ≠ .swap) s tr' s₁ →
    s₁.step .swap = some (s₂, es) →
      (∀ (k : ℤ) (u : EventType), s.works[k]? = some u → s₁.works[k]? = some u) ∧
      s₂.point = .batch (inOrder s₁.works) ∧ inOrder s₂.works = []

/-- Before a stop is processed no wake-up is lost, whatever the callers and the loop do. -/
theorem noLostWakeup (h : client.Reach (anyStep Uvcpp Act) tr s) (hn : .innerStop ∉ tr) :
    s.NoLostWakeup := by
  have hawake := awake_of_reach h
  constructor
  case awake => exact hawake
  case answered =>
    intro hsig hp
    have ho := opened_of_reach h (by rw [hp]; nofun) hn
    exact ⟨_, if_pos ⟨hp, ho, hsig⟩⟩
  case settled =>
    intro hidle hsig hp
    by_contra hne
    rcases hawake hne with h | h | ⟨t, ev, h⟩
    · cases hsig.symm.trans h
    · exact hp h
    · cases (hidle t).symm.trans h
  case inserted => exact fun a s' es k ev => getElem?_of_insertion
  case drained =>
    intro tr' s₁ s₂ es hr hs
    constructor
    · intro k u
      exact getElem?_of_run (G := anyStep Uvcpp Act) (hr.mono fun _ _ hb => ⟨trivial, hb⟩)
    · cases step_cases hs with
      | swap => exact ⟨rfl, inOrder_empty⟩

/-- A caller signals while the callback that was entered before has not yet swapped, and
another has inserted and not signalled. -/
theorem noLostWakeup_example : ∃ tr s, client.Reach (anyStep Uvcpp Act) tr s ∧
    .innerStop ∉ tr ∧ s.point = .entered ∧ s.asyncSignal = true ∧
    s.caller 2 = .inserted .stopLoop ∧ inOrder s.works = [.stopLoop, .closeConn] ∧
    s.NoLostWakeup := by
  obtain ⟨tr, s, hr, hp⟩ := System.exists_run_of_exec (M := client)
    (G := anyStep Uvcpp Act) (s := create ⟨1, List.replicate clientBufferLen 0⟩)
    [.connect "127.0.0.1" 50000 0, .run, .close 1, .asyncSend 1, .asyncEnter, .close 1,
      .asyncSend 1, .stop 2]
    (p := fun s tr => decide (.innerStop ∉ tr ∧ s.point = .entered ∧ s.asyncSignal = true ∧
      s.caller 2 = .inserted .stopLoop ∧ inOrder s.works = [.stopLoop, .closeConn]))
    (by decide +kernel)
  have h : client.Reach (anyStep Uvcpp Act) tr s := ⟨_, ⟨_, List.length_replicate, rfl⟩, hr⟩
  obtain ⟨hn, hpoint, hsig, hc, hw⟩ := of_decide_eq_true hp
  exact ⟨tr, s, h, hn, hpoint, hsig, hc, hw, noLostWakeup h hn⟩

end UvWrapper.Uvcpp
