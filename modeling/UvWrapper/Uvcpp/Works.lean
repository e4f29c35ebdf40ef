import UvWrapper.Uvcpp.Steps

/-! # Work events between two drains

Three kinds of callers share one map of events: `stop` inserts under the key 0, `close`
under 1 and `send` under the current size, and none of them overwrites. An event is
lost where an earlier `send` has taken the key. What a drain executes is decided by
the first event in key order that is not an `EV_SEND`.
-/

namespace UvWrapper.Uvcpp

open OrderedMap Transition

variable {s s' s'' : Uvcpp} {a : Act} {es tr tr' : List Event} {k : ℤ} {ev : EventType}
  {w : Works} {t : ℕ}

/-- Stops are filed under `HIGH` and closes under `MEDIUM`; sends may be anywhere. -/
def Filed (w : Works) : Prop :=
  ∀ k ev, w[k]? = some ev →
    ev = .send ∨ (ev = .closeConn ∧ k = mediumKey) ∨ (ev = .stopLoop ∧ k = highKey)

theorem Filed.empty : Filed ∅ := fun k ev h => by simp at h

theorem Filed.insertIfNew (hw : Filed w)
    (h : ev = .send ∨ (ev = .closeConn ∧ k = mediumKey) ∨ (ev = .stopLoop ∧ k = highKey)) :
    Filed (w.insertIfNew k ev) := by
  intro k' ev' h'
  rw [getElem?_insertIfNew] at h'
  split at h'
  · next hk =>
    obtain rfl := Option.some.inj h'
    obtain rfl := hk.1
    exact h
  · exact hw k' ev' h'

theorem Filed.stop_iff (hw : Filed w) :
    .stopLoop ∈ inOrder w ↔ w[highKey]? = some .stopLoop := by
  apply mem_inOrder_iff_of_key
  intro k hk
  rcases hw k _ hk with h | ⟨h, -⟩ | ⟨-, h⟩
  · cases h
  · cases h
  · exact h

theorem Filed.close_iff (hw : Filed w) :
    .closeConn ∈ inOrder w ↔ w[mediumKey]? = some .closeConn := by
  apply mem_inOrder_iff_of_key
  intro k hk
  rcases hw k _ hk with h | ⟨-, h⟩ | ⟨h, -⟩
  · cases h
  · exact h
  · cases h

theorem filed_of_reach {G : Uvcpp → Act → Prop} (h : client.Reach G tr s) :
    Filed s.works := by
  refine h.stateInvariant (I := fun s => Filed s.works) ?_ fun _ s a s' es _ hw _ hs => ?_
  · rintro s ⟨blk, -, rfl⟩; exact .empty
  · rw [(step_cases hs).frame.works]
    cases a with
    | insert t => exact hw.insertIfNew (.inl rfl)
    | close t => exact hw.insertIfNew (.inr (.inl ⟨rfl, rfl⟩))
    | stop t => exact hw.insertIfNew (.inr (.inr ⟨rfl, rfl⟩))
    | swap => exact .empty
    | _ => exact hw

theorem mem_nextWorks (ha : a ≠ .swap) (h : ev ∈ inOrder s.works) :
    ev ∈ inOrder (s.nextWorks a) := by
  cases a with
  | swap => exact (ha rfl).elim
  | insert | close | stop => exact mem_inOrder_insertIfNew.mpr (.inr h)
  | _ => exact h

/-! ## What a drain executes -/

/-- The event with which the async callback ends its pass over a batch. -/
def outcome : List EventType → Option EventType
  | [] => none
  | .send :: rest | .null :: rest => outcome rest
  | .closeConn :: _ => some .closeConn
  | .stopLoop :: _ => some .stopLoop

def calls : EventType → Event
  | .stopLoop => .innerStop
  | _ => .innerClose

theorem outcome_append {pre post : List EventType} (h : ∀ u ∈ pre, u = .send) :
    outcome (pre ++ post) = outcome post := by
  induction pre with
  | nil => rfl
  | cons u pre ih =>
    obtain rfl := h u List.mem_cons_self
    exact ih fun v hv => h v (List.mem_cons_of_mem _ hv)

theorem outcome_of_mem {l : List EventType} (h : .closeConn ∈ l ∨ .stopLoop ∈ l) :
    outcome l = some .closeConn ∨ outcome l = some .stopLoop := by
  induction l with
  | nil => simp at h
  | cons u l ih =>
    cases u with
    | send | null => exact ih (by simpa using h)
    | closeConn => exact .inl rfl
    | stopLoop => exact .inr rfl

theorem Filed.outcome_stop (hw : Filed w) (h : .stopLoop ∈ inOrder w) :
    outcome (inOrder w) = some .stopLoop := by
  obtain ⟨pre, post, he, hlt⟩ := inOrder_split (hw.stop_iff.mp h)
  have hsend : ∀ u ∈ pre, u = .send := by
    intro u hu
    obtain ⟨j, hj, hm⟩ := hlt u hu
    rcases hw j u hm with h | ⟨-, h⟩ | ⟨-, h⟩
    · exact h
    · exact absurd (h ▸ hj) (by decide)
    · exact absurd (h ▸ hj) (by decide)
  rw [he, outcome_append hsend]
  rfl

theorem StepCases.batch {l : List EventType} (h : StepCases s a s' es)
    (hb : s.point = .batch l) :
    s'.point = .batch l ∨
      (∃ ev rest n, l = ev :: rest ∧ s' = (s.process ev rest n).1 ∧
        es = (s.process ev rest n).2) ∨ l = [] := by
  have hf := h.frame.point
  cases h with
  | process ev rest n hp =>
    obtain rfl := LoopPoint.batch.inj (hb.symm.trans hp)
    exact .inr (.inl ⟨ev, rest, n, rfl, rfl, rfl⟩)
  | asyncReturn hp => exact .inr (.inr (LoopPoint.batch.inj (hb.symm.trans hp)))
  | run hp | asyncEnter hp | swap hp | leave hp => cases hb.symm.trans hp
  | _ => exact .inl (hf.trans hb)

theorem innerClose_mem (s : Uvcpp) : .innerClose ∈ s.innerClose.2 := by
  unfold innerClose
  split <;> exact List.mem_cons_self

theorem drain_calls {G : Uvcpp → Act → Prop} {l : List EventType}
    (hr : client.Run G s tr s') (hb : s.point = .batch l) (ho : outcome l = some ev)
    (hend : s'.point = .polling) : calls ev ∈ tr := by
  have hI : (∃ rest, s'.point = .batch rest ∧ outcome rest = some ev) ∨ calls ev ∈ tr := by
    refine hr.invariant (I := fun tr s =>
      (∃ rest, s.point = .batch rest ∧ outcome rest = some ev) ∨ calls ev ∈ tr)
      (.inl ⟨l, hb, ho⟩) ?_
    rintro tr s a s' es (⟨rest, hp, ho⟩ | hm) - hs
    · rcases (step_cases hs).batch hp with hp' | ⟨u, rest', n, rfl, rfl, rfl⟩ | rfl
      · exact .inl ⟨rest, hp', ho⟩
      · cases u with
        | send =>
          refine .inl ⟨rest', ?_, ho⟩
          simp only [Uvcpp.process]
          rw [write_frame]
        | null => exact .inl ⟨rest', rfl, ho⟩
        | closeConn =>
          obtain rfl : EventType.closeConn = ev := Option.some.inj ho
          exact .inr (List.mem_append_right _ (innerClose_mem _))
        | stopLoop =>
          obtain rfl : EventType.stopLoop = ev := Option.some.inj ho
          exact .inr (List.mem_append_right _ List.mem_cons_self)
      · cases ho
    · exact .inr (List.mem_append_left _ hm)
  rcases hI with ⟨rest, hp, -⟩ | hm
  · cases hend.symm.trans hp
  · exact hm

/-! ## Which events are kept -/

/-- What the map holds once a call has inserted its event. -/
def Guaranteed (a : Act) (l : List EventType) : Prop :=
  match a with
  | .stop _ => .stopLoop ∈ l
  | .close _ => .closeConn ∈ l ∨ .stopLoop ∈ l
  | .insert _ => .send ∈ l ∨ .closeConn ∈ l ∨ .stopLoop ∈ l
  | _ => True

def Executed (a : Act) (tr : List Event) : Prop :=
  match a with
  | .stop _ => .innerStop ∈ tr
  | .close _ => .innerClose ∈ tr ∨ .innerStop ∈ tr
  | _ => True

/-- In the runs whose steps satisfy `G` no stop, close or send event is lost: from its
insertion to the next drain the map holds an event that serves it, and the drain, once
its callback has returned, has executed it. -/
def EventsKept (G : Uvcpp → Act → Prop) : Prop :=
  ∀ tr s a s' es, client.Reach G tr s → G s a → s.step a = some (s', es) →
    ∀ tr₁ s₁, client.Run (fun s b => G s b ∧ b ≠ .swap) s' tr₁ s₁ →
      Guaranteed a (inOrder s₁.works) ∧
      ∀ s₂ es₂, s₁.step .swap = some (s₂, es₂) →
        ∀ tr₃ s₃, client.Run (fun s b => G s b ∧ b ≠ .asyncEnter) s₂ tr₃ s₃ →
          s₃.point = .polling → Executed a tr₃

/-- No `send` has taken the key of the event that `stop` or `close` inserts; a `close`
is also served by a stop that is in the map. -/
def keysFree (s : Uvcpp) : Act → Prop
  | .stop _ => s.works[highKey]? ≠ some .send
  | .close _ => s.works[mediumKey]? ≠ some .send ∨ s.works[highKey]? = some .stopLoop
  | _ => True

theorem Filed.high_cases (hw : Filed w) : w[highKey]? = none ∨ w[highKey]? = some .send ∨
    w[highKey]? = some .stopLoop := by
  cases h : w[highKey]? with
  | none => exact .inl rfl
  | some ev =>
    rcases hw _ _ h with rfl | ⟨-, hk⟩ | ⟨rfl, -⟩
    · exact .inr (.inl rfl)
    · exact absurd hk (by decide)
    · exact .inr (.inr rfl)

theorem Filed.medium_cases (hw : Filed w) : w[mediumKey]? = none ∨
    w[mediumKey]? = some .send ∨ w[mediumKey]? = some .closeConn := by
  cases h : w[mediumKey]? with
  | none => exact .inl rfl
  | some ev =>
    rcases hw _ _ h with rfl | ⟨rfl, -⟩ | ⟨-, hk⟩
    · exact .inr (.inl rfl)
    · exact .inr (.inr rfl)
    · exact absurd hk (by decide)

/-- The event of a call is served right after its insertion exactly if its key was
free for it. -/
theorem Filed.guaranteed_iff (hw : Filed s.works) (hs : s.step a = some (s', es)) :
    Guaranteed a (inOrder s'.works) ↔ keysFree s a := by
  rw [(step_cases hs).frame.works]
  cases a with
  | stop t =>
    simp only [Guaranteed, nextWorks, mem_inOrder_insertIfNew, and_true, hw.stop_iff, keysFree]
    rcases hw.high_cases with h | h | h <;> simp [h]
  | close t =>
    simp only [Guaranteed, nextWorks, mem_inOrder_insertIfNew, and_true, hw.stop_iff,
      hw.close_iff, reduceCtorEq, and_false, false_or, keysFree]
    rcases hw.medium_cases with h | h | h <;> simp [h]
  | insert t =>
    simp only [Guaranteed, keysFree, iff_true]
    obtain ⟨u, hu⟩ := List.exists_mem_of_ne_nil _
      (inOrder_insertIfNew_ne_nil (m := s.works) (k := sizeKey s.works) (v := EventType.send))
    obtain ⟨k, hk⟩ := mem_inOrder.mp hu
    rcases (hw.insertIfNew (.inl rfl)) k u hk with rfl | ⟨rfl, -⟩ | ⟨rfl, -⟩
    · exact .inl hu
    · exact .inr (.inl hu)
    · exact .inr (.inr hu)
  | _ => simp [Guaranteed, keysFree]

/-- The map only grows between two drains. -/
theorem guaranteed_run {G : Uvcpp → Act → Prop}
    (hr : client.Run (fun s b => G s b ∧ b ≠ .swap) s tr s')
    (h : Guaranteed a (inOrder s.works)) : Guaranteed a (inOrder s'.works) := by
  have hsub : ∀ ev ∈ inOrder s.works, ev ∈ inOrder s'.works := by
    refine hr.stateInvariant (I := fun s' => ∀ ev ∈ inOrder s.works, ev ∈ inOrder s'.works)
      (fun _ h => h) ?_
    intro s₁ b s₂ es hI hg hs ev hev
    rw [(step_cases hs).frame.works]
    exact mem_nextWorks hg.2 (hI ev hev)
  cases a with
  | stop t => exact hsub _ h
  | close t => exact h.imp (hsub _) (hsub _)
  | insert t => exact h.imp (hsub _) (Or.imp (hsub _) (hsub _))
  | _ => exact h

theorem Filed.executed {G : Uvcpp → Act → Prop} (hw : Filed s.works)
    (h : Guaranteed a (inOrder s.works)) (hs : s.step .swap = some (s', es))
    (hr : client.Run G s' tr s'') (hend : s''.point = .polling) : Executed a tr := by
  have hb : s'.point = .batch (inOrder s.works) := by
    cases step_cases hs with | swap => rfl
  cases a with
  | stop t => exact drain_calls hr hb (hw.outcome_stop h) hend
  | close t =>
    rcases outcome_of_mem h with ho | ho
    · exact .inl (drain_calls hr hb ho hend)
    · exact .inr (drain_calls hr hb ho hend)
  | _ => trivial

/-- No event is lost in the runs of `G` if and only if every `stop` and `close` of these
runs finds its key free of sends. -/
theorem eventsKept_iff (G : Uvcpp → Act → Prop) :
    EventsKept G ↔ client.Always G keysFree := by
  constructor
  · intro hkept tr s a s' es h hg hs
    exact ((filed_of_reach h).guaranteed_iff hs).mp (hkept tr s a s' es h hg hs [] s' .nil).1
  · intro hfree tr s a s' es h hg hs tr₁ s₁ hr
    have hk := guaranteed_run hr
      (((filed_of_reach h).guaranteed_iff hs).mpr (hfree tr s a s' es h hg hs))
    have hw : Filed s₁.works :=
      filed_of_reach ((h.step hg hs).trans (hr.mono fun _ _ hG => hG.1))
    exact ⟨hk, fun s₂ es₂ hs₂ tr₃ s₃ hr₃ hend => hw.executed hk hs₂ hr₃ hend⟩

/-- A `send` and a `stop` with no drain between them: the send sits under the key 0, and
the stop is not inserted. -/
theorem not_eventsKept : ¬ EventsKept (anyStep Uvcpp Act) := by
  intro h
  obtain ⟨tr, s, hr, hp⟩ := System.exists_run_of_exec (M := client) (G := anyStep Uvcpp Act)
    (s := create ⟨1, List.replicate clientBufferLen 0⟩)
    [.connect "127.0.0.1" 50000 0, .run, .connectCb 0,
      .append 1 [104, 101, 108, 108, 111] ⟨true, 1, fun _ => 0⟩ ⟨true, 2, fun _ => 0⟩,
      .insert 1, .asyncSend 1]
    (p := fun s _ => (Uvcpp.step s (.stop 1)).any fun q =>
      decide (EventType.stopLoop ∉ inOrder q.1.works))
    (by decide +kernel)
  cases hs : s.step (.stop 1) with
  | none => simp [hs] at hp
  | some q =>
    have hn : .stopLoop ∉ inOrder q.1.works := by simpa [hs] using hp
    exact hn (h tr s _ q.1 q.2 ⟨_, ⟨_, List.length_replicate, rfl⟩, hr⟩ trivial hs _ _ .nil).1

end UvWrapper.Uvcpp
