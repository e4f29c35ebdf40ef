import UvWrapper.Connect.Handles

/-! # Closing a stream

`CloseConnect` does not test what `m_pStream` points to. It is an open handle, not freed,
exactly as long as the connection holds it: as a stream that was accepted, or as the handle that
was dialled last, once it has answered. The next `Connect` frees that one, `CloseConnect`
closes either.
-/

namespace UvWrapper.Uvconnect

open Function Transition

variable {w : ℕ} {s s' : Uvconnect} {a : Act} {es tr : List Event} {h : ℕ}
  {answered answered' : List ℕ} {l l' : Link} {g g' : Owners}

/-! ## What a connection holds -/

/-- What `m_pStream` points to: no handle, or one that is closed or freed; a stream that was
accepted; the handle that was dialled last. -/
inductive Hold
  | lost | accepted | dialled
  deriving DecidableEq

variable {k : Hold}

/-- The shared pointers of a connection with what it holds. -/
structure Standing where
  owners : Owners
  hold : Hold

/-- `RegisterloopAndStream` and the connect callback of the handle that was dialled last give
the connection a stream. An executed `CloseConnect` takes it away, and an executed `Connect`
does if it was dialled. -/
def holdAfter (s : Uvconnect) (a : Act) (g : Owners) (k : Hold) : Hold :=
  match a with
  | .registerloopAndStream => .accepted
  | .connectCb h _ => if g.ptcp = some h then .dialled else .lost
  | .perform _ =>
    match s.body with
    | some .connect => if k = .dialled then .lost else k
    | some .closeConnect => .lost
    | _ => k
  | _ => k

def standing (w : ℕ) : System (Uvconnect × Standing) Act Event :=
  (connection w).observed ⟨⟨none, fun _ => 0⟩, .lost⟩ fun s a es g =>
    ⟨s.resets a es g.owners, s.holdAfter a g.owners g.hold⟩

/-! ## The handle that is held -/

/-- What is held is open, and belongs to its owners; an open handle that is not held has lost
one of them. -/
def Hold.Means (answered : List ℕ) (l : Link) (g : Owners) : Hold → Prop
  | .lost => ∀ h, l.stream = some h → (l.tcp h).isOpen = true →
      h ∈ answered ∧ g.ptcp ≠ some h
  | .accepted => ∃ h, l.stream = some h ∧ (l.tcp h).isOpen = true ∧ h ∉ answered
  | .dialled => ∃ h, l.stream = some h ∧ (l.tcp h).isOpen = true ∧ g.ptcp = some h

/-- Exactly what is held may be closed. -/
theorem Hold.Means.ne_lost_iff (hk : k.Means answered l g) (hi : OwnInv answered l g) :
    k ≠ .lost ↔ ∃ h, l.stream = some h ∧ (l.tcp h).isOpen = true ∧ g.frees h = 0 := by
  have hexact : ∀ {h}, l.stream = some h →
      g.frees h + holding g.ptcp h = if h ∈ answered then 1 else 0 := by
    intro h hst
    have he := hi.exact h
    rw [if_pos (hi.known h (.inr (.inr hst))), show holding l.stream h = 1 from if_pos hst] at he
    omega
  cases k with
  | lost =>
    refine ⟨fun hne => (hne rfl).elim, ?_⟩
    rintro ⟨h, hst, ho, hz⟩
    obtain ⟨hm, hp⟩ := hk h hst ho
    have he := hexact hst
    rw [if_pos hm, hz, holding_eq_zero.mpr hp] at he
    cases he
  | accepted =>
    obtain ⟨h, hst, ho, hm⟩ := hk
    have he := hexact hst
    rw [if_neg hm] at he
    exact ⟨fun _ => ⟨h, hst, ho, (Nat.add_eq_zero_iff.mp he).1⟩, fun _ => nofun⟩
  | dialled =>
    obtain ⟨h, hst, ho, hp⟩ := hk
    have he := hexact hst
    rw [show holding g.ptcp h = 1 from if_pos hp] at he
    refine ⟨fun _ => ⟨h, hst, ho, ?_⟩, fun _ => nofun⟩
    split at he <;> omega

/-! ## Steps -/

theorem Hold.Means.of_eq (hk : k.Means answered l g) (hst : l'.stream = l.stream)
    (ho : ∀ h, l.stream = some h → (l'.tcp h).isOpen = (l.tcp h).isOpen)
    (ha : answered' = answered) (hp : g'.ptcp = g.ptcp) : k.Means answered' l' g' := by
  subst ha
  cases k with
  | lost =>
    intro h hs hopen
    rw [hst] at hs
    rw [hp]
    exact hk h hs ((ho h hs).symm.trans hopen)
  | accepted =>
    obtain ⟨h, hs, hopen, hm⟩ := hk
    exact ⟨h, hst.trans hs, (ho h hs).trans hopen, hm⟩
  | dialled =>
    obtain ⟨h, hs, hopen, hq⟩ := hk
    exact ⟨h, hst.trans hs, (ho h hs).trans hopen, hp.trans hq⟩

theorem OwnInv.mem_answered (hi : OwnInv answered l g) (hst : l.stream = some h)
    (hp : g.ptcp = some h) : h ∈ answered := by
  by_contra hm
  have he := hi.exact h
  rw [if_neg hm, show holding g.ptcp h = 1 from if_pos hp,
    show holding l.stream h = 1 from if_pos hst] at he
  split at he <;> omega

theorem Hold.Means.dial (hk : k.Means answered l g) (hi : OwnInv answered l g) {st : TcpState}
    (hst : l'.stream = l.stream) (ht : l'.tcp = update l.tcp l.tcps st)
    (hp : g'.ptcp = some l.tcps) :
    (if k = .dialled then Hold.lost else k).Means answered l' g' := by
  have hlt : ∀ {h}, l.stream = some h → h < l.tcps := fun hs => hi.known _ (.inr (.inr hs))
  have hopen : ∀ h, l.stream = some h → (l'.tcp h).isOpen = (l.tcp h).isOpen := by
    intro h hs
    rw [ht, update_of_ne (hlt hs).ne]
  have hnew : ∀ {h}, l.stream = some h → g'.ptcp ≠ some h := by
    intro h hs he
    exact (hlt hs).ne' (Option.some.inj (hp.symm.trans he))
  cases k with
  | lost =>
    intro h hs ho
    rw [hst] at hs
    exact ⟨(hk h hs ((hopen h hs).symm.trans ho)).1, hnew hs⟩
  | accepted =>
    obtain ⟨h, hs, ho, hm⟩ := hk
    exact ⟨h, hst.trans hs, (hopen h hs).trans ho, hm⟩
  | dialled =>
    obtain ⟨h, hs, -, hq⟩ := hk
    intro x hx _
    obtain rfl : h = x := Option.some.inj (hs.symm.trans (hst.symm.trans hx))
    exact ⟨hi.mem_answered hs hq, hnew hs⟩

/-- The other steps leave the stream and its owners alone. -/
theorem Hold.Means.kept (hk : k.Means answered s.link g) (hm : StreamMove s a l es)
    (ha : a.givesStream = false)
    (hb : ∀ err, a = .perform err → s.body ≠ some .connect ∧ s.body ≠ some .closeConnect) :
    k.Means (answered ++ es.filterMap Event.answered) l (s.resets a es g) := by
  have hsame : ∀ {l' : Link}, l'.tcps = s.tcps → l'.stream = s.stream →
      (∀ h, (l'.tcp h).isOpen = (s.tcp h).isOpen) → StreamMove s a l' es →
      k.Means (answered ++ es.filterMap Event.answered) l' (s.resets a es g) := by
    intro l' ht hst ho hm
    obtain ⟨hnone, hnil⟩ := hm.quiet ha ht
    rw [hnil, List.append_nil, resets_of_quiet ha hnone]
    exact hk.of_eq hst (fun h _ => ho h) rfl rfl
  have hmove := hm
  cases hm with
  | accept | connected => cases ha
  | dial err hbody => exact ((hb err rfl).1 hbody).elim
  | close h err hbody => exact ((hb err rfl).2 hbody).elim
  | stay | readStart | readStop | write | data | lost | orphan =>
    exact hsame rfl rfl (fun _ => rfl) hmove
  | closed h es ht =>
    exact hsame rfl rfl (fun _ => Update.apply_update_of_eq (by rw [ht]; rfl)) hmove

theorem perform_connect {err : ℤ} (hb : s.body = some .connect)
    (hs : s.step w (.perform err) = some (s', es)) :
    s'.link = { s.link with
      tcps := s.tcps + 1
      tcp := update s.tcp s.tcps (if err = 0 then .connecting else .inited) } ∧
      es = [.tcpInit s.tcps, .tcpConnect s.tcps s.addr] := by
  cases step_cases hs with
  | loop _ _ _ _ hl => cases hl
  | perform req _ hb' =>
    obtain rfl : req = .connect := Option.some.inj (hb'.symm.trans hb)
    exact ⟨rfl, rfl⟩

theorem Hold.Means.accept (hi : OwnInv answered s.link g)
    (hm : StreamMove s .registerloopAndStream l es) :
    Hold.accepted.Means (answered ++ es.filterMap Event.answered) l
      (s.resets .registerloopAndStream es g) := by
  cases hm with
  | stay _ _ ha => cases ha
  | accept =>
    refine ⟨s.tcps, rfl, ?_, ?_⟩
    · simp [TcpState.isOpen]
    · rw [List.filterMap_nil, List.append_nil]
      exact hi.notMem_tcps

theorem Hold.Means.connected {h : ℕ} {status : ℤ} (hm : StreamMove s (.connectCb h status) l es) :
    (s.holdAfter (.connectCb h status) g k).Means (answered ++ es.filterMap Event.answered) l
      (s.resets (.connectCb h status) es g) := by
  cases hm with
  | stay _ _ ha => cases ha
  | connected _ _ ht =>
    have hnew : (s.resets (.connectCb h status) (.connectCb h status :: s.notify .connect status)
        g).ptcp = g.ptcp := ptcp_free g s.stream
    by_cases hp : g.ptcp = some h
    · rw [show s.holdAfter (.connectCb h status) g k = .dialled from if_pos hp]
      refine ⟨h, rfl, ?_, hnew.trans hp⟩
      simp only [update_self]
      split <;> rfl
    · rw [show s.holdAfter (.connectCb h status) g k = .lost from if_neg hp]
      rintro x ⟨⟩ -
      rw [hnew]
      exact ⟨List.mem_append_right _ List.mem_cons_self, hp⟩

theorem Hold.Means.step (hk : k.Means answered s.link g) (hi : OwnInv answered s.link g)
    (hs : s.step w a = some (s', es)) :
    (s.holdAfter a g k).Means (answered ++ es.filterMap Event.answered) s'.link
      (s.resets a es g) := by
  have hm := streamMove hs
  have hkept : a.givesStream = false →
      (∀ err, a = .perform err → s.body ≠ some .connect ∧ s.body ≠ some .closeConnect) →
      k.Means (answered ++ es.filterMap Event.answered) s'.link (s.resets a es g) := hk.kept hm
  cases a with
  | registerloopAndStream => exact Means.accept hi hm
  | connectCb h status => exact Means.connected hm
  | perform err =>
    cases hb : s.body with
    | none =>
      simp only [holdAfter, hb]
      exact hkept rfl fun _ _ => by simp [hb]
    | some req =>
      cases req with
      | connect =>
        obtain ⟨hl, rfl⟩ := perform_connect hb hs
        simp only [holdAfter, hb]
        rw [show List.filterMap Event.answered _ = [] from rfl, List.append_nil, hl]
        exact hk.dial hi rfl rfl rfl
      | closeConnect =>
        simp only [holdAfter, hb]
        rcases closeConnect_cases hb hs with ⟨hst, hl, -⟩ | ⟨h, hst, hl, -⟩
        · rw [hl]
          exact fun x hx => by cases hst.symm.trans hx
        · rw [hl]
          intro x hx ho
          obtain rfl : h = x := Option.some.inj (hst.symm.trans hx)
          simp [TcpState.isOpen] at ho
      | readStart | readStop | tcpWrite | other =>
        simp only [holdAfter, hb]
        exact hkept rfl fun _ _ => by simp [hb]
  | _ => exact hkept rfl nofun

theorem means_of_reach {G : Uvconnect × Standing → Act → Prop} {p : Uvconnect × Standing}
    (h : (standing w).Reach G tr p) :
    OwnInv (tr.filterMap Event.answered) p.1.link p.2.owners ∧
      p.2.hold.Means (tr.filterMap Event.answered) p.1.link p.2.owners := by
  refine h.invariant (I := fun tr p => OwnInv (tr.filterMap Event.answered) p.1.link p.2.owners ∧
    p.2.hold.Means (tr.filterMap Event.answered) p.1.link p.2.owners) ?_ ?_
  · rintro ⟨s, g⟩ ⟨⟨garbage, send, rfl⟩, rfl⟩
    exact ⟨ownInv_create garbage send, nofun⟩
  · rintro tr p a p' es - ⟨hi, hk⟩ - hs
    obtain ⟨hs, hp⟩ := System.observed_step.mp hs
    rw [List.filterMap_append, hp]
    exact ⟨hi.move (streamMove hs), hk.step hi hs⟩

/-! ## Closing -/

/-- In the runs whose steps satisfy `G` every `CloseConnect` calls `uv_close` on a handle
that is open and has not been freed. -/
def ClosesOpen (w : ℕ) (G : Uvconnect × Standing → Act → Prop) : Prop :=
  ∀ tr p err p' es, (standing w).Reach G tr p → G p (.perform err) →
    p.1.body = some .closeConnect → (standing w).step p (.perform err) = some (p', es) →
    ∃ h st, es = [.uvClose h st] ∧ st.isOpen = true ∧ p.2.owners.frees h = 0

/-- `CloseConnect` is executed while the connection holds a stream. -/
def closesHeld (p : Uvconnect × Standing) : Act → Prop
  | .perform _ => p.1.body = some .closeConnect → p.2.hold ≠ .lost
  | _ => True

/-- `uv_close` is always called on an open handle exactly if every `CloseConnect` that is
executed comes after `RegisterloopAndStream`, or after the connect callback of the handle dialled
last with no `Connect` since, and no other `CloseConnect` has come in between. -/
theorem closesOpen_iff (w : ℕ) (G : Uvconnect × Standing → Act → Prop) :
    ClosesOpen w G ↔ (standing w).Always G closesHeld := by
  have hstep : ∀ {tr p err p' es}, (standing w).Reach G tr p → p.1.body = some .closeConnect →
      (standing w).step p (.perform err) = some (p', es) →
      ((∃ h st, es = [.uvClose h st] ∧ st.isOpen = true ∧ p.2.owners.frees h = 0) ↔
        p.2.hold ≠ .lost) := by
    intro tr p err p' es hr hb hs
    obtain ⟨hi, hk⟩ := means_of_reach hr
    have hs' : p.1.step w (.perform err) = some (p'.1, es) := (System.observed_step.mp hs).1
    rw [hk.ne_lost_iff hi]
    rcases closeConnect_cases hb hs' with
      ⟨hst, -, -, rfl⟩ | ⟨h, hst, -, rfl⟩
    · constructor
      · rintro ⟨h, st, he, -⟩
        cases he
      · rintro ⟨h, hx, -⟩
        cases hst.symm.trans hx
    · constructor
      · rintro ⟨x, st, he, ho⟩
        obtain ⟨rfl, rfl⟩ : h = x ∧ p.1.tcp h = st := by simpa using he
        exact ⟨h, hst, ho⟩
      · rintro ⟨x, hx, ho⟩
        obtain rfl : h = x := Option.some.inj (hst.symm.trans hx)
        exact ⟨h, _, rfl, ho⟩
  constructor
  · intro hopen tr p a p' es hr hg hs
    cases a with
    | perform err => exact fun hb => (hstep hr hb hs).mp (hopen tr p err p' es hr hg hb hs)
    | _ => trivial
  · exact fun h tr p err p' es hr hg hb hs => (hstep hr hb hs).mpr (h tr p _ p' es hr hg hs hb)

/-- `CloseConnection` is called twice on an accepted connection. -/
theorem not_closesOpen : ¬ ClosesOpen 64 (anyStep (Uvconnect × Standing) Act) := by
  intro hopen
  obtain ⟨tr, p, hr, hp⟩ := System.exists_run_of_exec (M := standing 64)
    (G := anyStep (Uvconnect × Standing) Act)
    (s := (create (fun _ => .loopStop) fun _ => ⟨⟨none, 0, 0, 0⟩, ⟨none, 0⟩⟩,
      ⟨⟨none, fun _ => 0⟩, .lost⟩))
    [.registerloopAndStream, .run 1, .setRunning 1, .request 1 .closeConnection, .addReq 1,
      .lock 1, .request 1 .closeConnection, .addReq 1, .lock 1, .turn (.fire 0), .perform 0,
      .turn .tcbReturn, .turn .recycle, .turn (.fire 1)]
    (p := fun p _ => decide (p.1.body = some .closeConnect ∧
      ((standing 64).step p (.perform 0)).map Prod.snd = some [.uvClose 0 .closing]))
    (by decide +kernel)
  obtain ⟨hb, hm⟩ := of_decide_eq_true hp
  obtain ⟨⟨p', es⟩, hs, rfl⟩ := Option.map_eq_some_iff.mp hm
  obtain ⟨h, st, he, ho, -⟩ := hopen tr p 0 p' _ ⟨_, ⟨⟨_, _, rfl⟩, rfl⟩, hr⟩ trivial hb hs
  obtain ⟨rfl, rfl⟩ : h = 0 ∧ st = .closing := by simpa using he.symm
  cases ho

end UvWrapper.Uvconnect
