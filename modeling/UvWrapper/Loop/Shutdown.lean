import UvWrapper.Loop.Passes

/-! # Requests at the end of the loop

`AddReq` accepts requests until the loop thread clears `m_bRunning`. The loop thread stops
looking at the handles earlier: after `uv_stop` it finishes the pass it is in and leaves
`uv_run`. What it does not come to any more stays in `m_mapAsync`, and its handle with it.
-/

namespace UvWrapper.Uvloop

open Function Transition

variable {Cb : Type} {s s' : Threads Cb} {a : Act Cb} {es tr : List (Event Cb)} {t x : ℕ}
  {G : Threads Cb → Act Cb → Prop}

/-- In the runs whose steps satisfy `G` the loop thread, once it is behind `uv_run` and has
cleared `m_bRunning`, has run every request that was accepted, and all handles are free. -/
def LosesNone (G : Threads Cb → Act Cb → Prop) : Prop :=
  ∀ tr s, (threads Cb).Reach (fun s a => callersBehave s a ∧ G s a) tr s →
    s.loop.position = .down →
      (∀ x, tr.filterMap (acceptedOn x) = tr.filterMap (ranOn x)) ∧ s.loop.mapAsync = ∅ ∧
      ∀ x < asyncHandles, x ∈ s.loop.dAsync

/-- The loop thread will not look at the handles any more. -/
def Behind (l : Uvloop Cb) : Prop := l.position = .left ∨ l.position = .down

/-- `uv_run` returns with no handle signalled, and from then on no call gets a handle. -/
def beforeTheEnd (s : Threads Cb) : Act Cb → Prop
  | .turn .leave => ∀ x, s.loop.signalled x = false
  | .lock _ => s.loop.Behind → s.loop.dAsync = []
  | _ => True

/-- libuv visits the handles in order, finishes the pass in which `uv_stop` was called, and
begins no other. -/
def finishesPass (s : Threads Cb) : Act Cb → Prop
  | .turn .leave => asyncHandles ≤ s.loop.cursor
  | .turn .newPass => s.loop.stopFlag = false
  | .turn b => s.loop.inPasses b
  | _ => True

instance : DecidableRel (finishesPass : Threads Cb → Act Cb → Prop) := fun s a =>
  match a with
  | .turn .leave => inferInstanceAs (Decidable (_ ≤ _))
  | .turn .newPass => inferInstanceAs (Decidable (_ = _))
  | .turn (.fire h) => inferInstanceAs (Decidable (s.loop.inPasses (.fire h)))
  | .turn .tcbReturn | .turn .recycle | .turn .skip | .turn .clearRunning | .call _ _ | .lock _
  | .run _ | .setRunning _ => .isTrue trivial

theorem Threads.inv_of_guarded
    (h : (threads Cb).Reach (fun s a => callersBehave s a ∧ G s a) tr s) : s.Inv :=
  inv_of_reach (h.mono fun _ _ hg => hg.1)

/-- Without a signal a loop that is behind `uv_run` has run all there was. -/
theorem Threads.settled (h : (threads Cb).Reach callersBehave tr s)
    (hp : s.loop.position = .down) (hn : ∀ x, s.loop.signalled x = false) :
    (∀ x, tr.filterMap (acceptedOn x) = tr.filterMap (ranOn x)) ∧ s.loop.mapAsync = ∅ ∧
      ∀ x < asyncHandles, x ∈ s.loop.dAsync := by
  have hi := (inv_of_reach h).loop
  have hempty : s.loop.mapAsync = ∅ := by
    apply Finset.eq_empty_of_forall_notMem
    intro x hx
    rcases (hi.inUse x).mp hx with hs | hs
    · simp [hn x] at hs
    · simp [hp, Position.handle] at hs
  refine ⟨fun x => ?_, hempty, fun x hx => ?_⟩
  · rw [conserved h x, pending, hn x]
    exact List.append_nil _
  · exact ((hi.knows x).mpr hx).resolve_right (by simp [pool, hempty])

theorem Threads.StepCases.behind (h : s.StepCases a s' es) (hi : s.Inv)
    (hI : s.loop.Behind → ∀ x, s.loop.signalled x = false) (hg : beforeTheEnd s a) :
    s'.loop.Behind → ∀ x, s'.loop.signalled x = false := by
  cases h with
  | called | refused | setRunning => exact hI
  | lock t fill hc =>
    rcases submit_cases s.loop fill with ⟨-, he⟩ | ⟨h, l', ht, he⟩
    · rw [he]
      exact hI
    · rw [he, (takeAsync_cases ht).2]
      intro hp
      have hempty : s.loop.dAsync = [] := hg hp
      simp [takeAsync, hempty] at ht
  | run t loop _ hsp =>
    rw [(spawn_cases hsp).2.2]
    rintro (h | h) <;> cases h
  | turn b loop es ht =>
    cases hi.loop.turn_cases ht with
    | leave => exact fun _ => hg
    | clearRunning hp => exact fun _ => hI (.inl hp)
    | skip hp | newPass hp =>
      rintro (h | h) <;> cases hp.symm.trans h
    | fireStop | fire | tcbReturn | recycle => rintro (h | h) <;> cases h

theorem signalled_of_beforeTheEnd
    (hg : (threads Cb).Always (fun s a => callersBehave s a ∧ G s a) beforeTheEnd)
    (h : (threads Cb).Reach (fun s a => callersBehave s a ∧ G s a) tr s) :
    s.loop.Behind → ∀ x, s.loop.signalled x = false := by
  refine h.stateInvariant
    (I := fun s => s.loop.Behind → ∀ x, s.loop.signalled x = false) ?_
    fun tr s a s' es hr hi hga hs => (Threads.step_cases hs).behind (Threads.inv_of_guarded hr) hi
      (hg tr s a s' es hr hga hs)
  rintro s ⟨garbage, rfl⟩ - x
  rfl

theorem step_clearRunning (hp : s.loop.position = .left) :
    (threads Cb).step s (.turn .clearRunning) =
      some ({ s with loop := { s.loop with bRunning := false, position := .down } }, []) := by
  simp only [threads, Threads.step, turn, hp, if_true]
  rfl

theorem LosesNone.signalled (hl : LosesNone G) (hG : ∀ s : Threads Cb, G s (.turn .clearRunning))
    (h : (threads Cb).Reach (fun s a => callersBehave s a ∧ G s a) tr s)
    (hp : s.loop.Behind) : s.loop.signalled x = false := by
  by_contra hx
  have hx : s.loop.signalled x = true := by simpa using hx
  have hmem : ∀ {tr : List (Event Cb)} {s : Threads Cb},
      (threads Cb).Reach (fun s a => callersBehave s a ∧ G s a) tr s →
      s.loop.position = .down → s.loop.signalled x = true → False := by
    intro tr s h hp hx
    have hm := ((Threads.inv_of_guarded h).loop.inUse x).mpr (.inl hx)
    simp [(hl tr s h hp).2.1] at hm
  rcases hp with hp | hp
  · exact hmem (h.step (a := .turn .clearRunning) ⟨trivial, hG s⟩ (step_clearRunning hp)) rfl hx
  · exact hmem h hp hx

/-- No request is lost in the runs of `G` if `uv_run` returns with no handle signalled and no
call gets a handle afterwards; and where the loop thread may always clear `m_bRunning`, only
then. -/
theorem losesNone_iff (G : Threads Cb → Act Cb → Prop) :
    ((threads Cb).Always (fun s a => callersBehave s a ∧ G s a) beforeTheEnd → LosesNone G) ∧
      ((∀ s, G s (.turn .clearRunning)) → LosesNone G →
        (threads Cb).Always (fun s a => callersBehave s a ∧ G s a) beforeTheEnd) := by
  constructor
  · intro hg tr s h hp
    exact Threads.settled (h.mono fun _ _ hg => hg.1) hp
      (signalled_of_beforeTheEnd hg h (.inr hp))
  · intro hG hl tr s a s' es h hg hs
    have h' := h.step hg hs
    cases a with
    | lock t =>
      intro hp
      have hc : s.StepCases (.lock t) s' es := Threads.step_cases hs
      cases hc with
      | lock _ fill =>
        rcases submit_cases s.loop fill with ⟨hempty, -⟩ | ⟨x, l', ht, he⟩
        · exact hempty
        · rw [he, (takeAsync_cases ht).2] at h'
          have hx := hl.signalled (x := x) hG h' hp
          simp at hx
    | turn b =>
      cases b with
      | leave =>
        have hc : s.StepCases (.turn .leave) s' es := Threads.step_cases hs
        cases hc with
        | turn _ loop es ht =>
          cases (Threads.inv_of_guarded h).loop.turn_cases ht with
          | leave =>
            intro x
            have hx := hl.signalled (x := x) hG h' (.inl rfl)
            exact hx
      | _ => trivial
    | call | run | setRunning => trivial

/-- A stop is called and run, and a request is accepted after the pass has ended and before
`m_bRunning` is cleared. -/
theorem not_losesNone : ¬ LosesNone (finishesPass : Threads ℕ → Act ℕ → Prop) := by
  intro hl
  obtain ⟨tr, s, hr, hp⟩ := System.exists_run_of_exec (M := threads ℕ)
    (G := fun s a => callersBehave s a ∧ finishesPass s a)
    (s := ⟨Uvloop.create fun _ => .loopStop, fun _ => .idle⟩)
    ([.run 1, .setRunning 1, .call 1 .stop, .lock 1, .turn (.fire 0), .turn .recycle,
      .turn .skip, .turn .skip, .turn .skip, .turn .skip,
      .call 2 (.addReq .tcpWrite (some 7)), .lock 2, .turn .leave, .turn .clearRunning])
    (p := fun s tr => decide (s.loop.position = .down ∧
      tr.filterMap (acceptedOn 1) = [⟨.tcpWrite, some 7⟩] ∧ tr.filterMap (ranOn 1) = []))
    (by decide +kernel)
  obtain ⟨hd, hacc, hran⟩ := of_decide_eq_true hp
  have h := (hl tr s ⟨_, ⟨_, rfl⟩, hr⟩ hd).1 1
  simp [hacc, hran] at h

end UvWrapper.Uvloop
