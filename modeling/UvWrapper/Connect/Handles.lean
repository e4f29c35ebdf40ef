import UvWrapper.Connect.Streams

/-! # Who frees a tcp handle

`Connect` puts a new handle in the shared pointer `m_ptcp`, and its connect callback puts the
same address in the shared pointer `m_pStream`; neither knows of the other. Each frees the
handle it lets go. A handle that was dialled has therefore two owners once its connect
callback has run, and is freed by both of them.
-/

namespace UvWrapper.Uvconnect

open Function Transition

variable {w : ℕ} {s s' : Uvconnect} {a : Act} {es tr : List Event} {h h' : ℕ}

/-- `m_ptcp`, and how often each handle has been freed. -/
structure Owners where
  ptcp : Option ℕ
  frees : ℕ → ℕ

def Owners.free (g : Owners) : Option ℕ → Owners
  | some h => { g with frees := update g.frees h (g.frees h + 1) }
  | none => g

def Event.created : Event → Option ℕ
  | .tcpInit h => some h
  | _ => none

/-- The steps in which `m_pStream` is given a handle. -/
def Act.givesStream : Act → Bool
  | .registerloopAndStream | .connectCb _ _ => true
  | _ => false

/-- What the shared pointers do in a step: `RegisterloopAndStream` and the connect callback
reset `m_pStream`, and `Connect` resets `m_ptcp`. -/
def resets (s : Uvconnect) (a : Act) (es : List Event) (g : Owners) : Owners :=
  match a with
  | .registerloopAndStream | .connectCb _ _ => g.free s.stream
  | _ =>
    match es.findSome? Event.created with
    | some h => { g.free g.ptcp with ptcp := some h }
    | none => g

def pointing (w : ℕ) : System (Uvconnect × Owners) Act Event :=
  (connection w).observed ⟨none, fun _ => 0⟩ resets

def Event.answered : Event → Option ℕ
  | .connectCb h _ => some h
  | _ => none

def holding (o : Option ℕ) (h : ℕ) : ℕ := if o = some h then 1 else 0

theorem frees_free (g : Owners) (o : Option ℕ) (h : ℕ) :
    (g.free o).frees h = g.frees h + holding o h := by
  cases o with
  | none => simp [Owners.free, holding]
  | some x =>
    rcases eq_or_ne h x with rfl | hx
    · simp [Owners.free, holding]
    · simp [Owners.free, holding, hx, hx.symm]

theorem ptcp_free (g : Owners) (o : Option ℕ) : (g.free o).ptcp = g.ptcp := by
  cases o <;> rfl

/-- What is known of the handles of a connection: each has one owner for its creation and one
for its connect callback, counting those that have let it go; the last one dialled is in
`m_ptcp`, and the one whose callback came last is in `m_pStream`, if none was accepted since. -/
structure OwnInv (answered : List ℕ) (l : Link) (g : Owners) : Prop where
  exact : ∀ h, g.frees h + holding g.ptcp h + holding l.stream h =
    (if h < l.tcps then 1 else 0) + if h ∈ answered then 1 else 0
  fresh : ∀ h, l.tcps ≤ h → l.tcp h = .raw
  newest : ∀ h, h ∈ answered ∨ l.tcp h = .connecting → ∃ q, g.ptcp = some q ∧ h ≤ q
  known : ∀ h, h ∈ answered ∨ g.ptcp = some h ∨ l.stream = some h → h < l.tcps
  ended : ∀ h ∈ answered, l.tcp h ≠ .connecting
  last : ∀ h h', h ≠ h' → [h, h'].Sublist answered → l.stream ≠ some h

variable {answered : List ℕ} {l : Link} {g : Owners}

theorem mem_of_pair_sublist {x y z : ℕ} (h : [x, y].Sublist (answered ++ [z])) :
    x ∈ answered := by
  obtain ⟨l₁, l₂, he, h₁, h₂⟩ := List.sublist_append_iff.mp h
  cases l₁ with
  | nil =>
    have hlen := h₂.length_le
    rw [List.nil_append] at he
    simp [← he] at hlen
  | cons c rest =>
    obtain rfl : x = c := (List.cons.inj he).1
    exact h₁.subset List.mem_cons_self

theorem OwnInv.exact_new (hi : OwnInv answered l g) (h : ℕ) :
    g.frees h + holding g.ptcp h + holding l.stream h + holding (some l.tcps) h =
      (if h < l.tcps + 1 then 1 else 0) + if h ∈ answered then 1 else 0 := by
  have he := hi.exact h
  have hnew : (if h < l.tcps + 1 then 1 else 0) =
      (if h < l.tcps then 1 else 0) + holding (some l.tcps) h := by
    simp only [holding, Option.some.injEq]
    rcases lt_trichotomy h l.tcps with hh | hh | hh
    · rw [if_pos (by omega), if_pos hh, if_neg (by omega)]
    · rw [if_pos (by omega), if_neg (by omega), if_pos hh.symm]
    · rw [if_neg (by omega), if_neg (by omega), if_neg (by omega)]
  rw [hnew]
  omega

theorem OwnInv.fresh_new (hi : OwnInv answered l g) (st : TcpState) :
    ∀ h, l.tcps + 1 ≤ h → update l.tcp l.tcps st h = .raw := by
  intro h hh
  rw [update_of_ne (Nat.lt_of_succ_le hh).ne']
  exact hi.fresh h (Nat.le_of_succ_le hh)

theorem OwnInv.ended_update (hi : OwnInv answered l g) {st : TcpState}
    (hx : h ∉ answered) : ∀ x ∈ answered, update l.tcp h st x ≠ .connecting := by
  intro x hm
  rw [update_of_ne (ne_of_mem_of_not_mem hm hx)]
  exact hi.ended x hm

theorem OwnInv.notMem_tcps (hi : OwnInv answered l g) : l.tcps ∉ answered :=
  fun hm => Nat.lt_irrefl _ (hi.known _ (.inl hm))

theorem OwnInv.accept (hi : OwnInv answered l g) :
    OwnInv answered { l with
      bConnectSuccess := true
      stream := some l.tcps
      tcps := l.tcps + 1
      tcp := update l.tcp l.tcps .connected } (g.free l.stream) := by
  constructor
  case exact =>
    intro h
    rw [← hi.exact_new h, frees_free, ptcp_free]
    dsimp only
    omega
  case fresh => exact hi.fresh_new .connected
  case newest =>
    intro h hh
    rw [ptcp_free]
    exact hi.newest h (hh.imp_right fun hc => (Update.of_update (by decide) hc).2)
  case known =>
    rintro h (hm | hm | ⟨⟨⟩⟩)
    · exact Nat.lt_succ_of_lt (hi.known h (.inl hm))
    · rw [ptcp_free] at hm
      exact Nat.lt_succ_of_lt (hi.known h (.inr (.inl hm)))
    · exact Nat.lt_succ_self _
  case ended => exact hi.ended_update hi.notMem_tcps
  case last =>
    rintro h h' - hsub ⟨⟩
    exact hi.notMem_tcps (hsub.subset List.mem_cons_self)

theorem OwnInv.dial (hi : OwnInv answered l g) (err : ℤ) :
    OwnInv answered { l with
      tcps := l.tcps + 1
      tcp := update l.tcp l.tcps (if err = 0 then .connecting else .inited) }
      { g.free g.ptcp with ptcp := some l.tcps } := by
  constructor
  case exact =>
    intro h
    have hf : ({ g.free g.ptcp with ptcp := some l.tcps } : Owners).frees h = _ :=
      frees_free g g.ptcp h
    rw [← hi.exact_new h, hf]
    dsimp only
    omega
  case fresh => exact hi.fresh_new _
  case newest =>
    refine fun h hh => ⟨l.tcps, rfl, ?_⟩
    rcases hh with hm | hc
    · exact (hi.known h (.inl hm)).le
    · by_contra hlt
      cases (hi.fresh_new _ h (by omega)).symm.trans hc
  case known =>
    rintro h (hm | ⟨⟨⟩⟩ | hm)
    · exact Nat.lt_succ_of_lt (hi.known h (.inl hm))
    · exact Nat.lt_succ_self _
    · exact Nat.lt_succ_of_lt (hi.known h (.inr (.inr hm)))
  case ended => exact hi.ended_update hi.notMem_tcps
  case last => exact hi.last

theorem OwnInv.connected (hi : OwnInv answered l g) (ht : l.tcp h = .connecting)
    (status : ℤ) : OwnInv (answered ++ [h]) { l with
      bConnectSuccess := decide (status = 0)
      stream := some h
      tcp := update l.tcp h (if status = 0 then .connected else .refused) }
      (g.free l.stream) := by
  have hnot : h ∉ answered := fun hm => hi.ended h hm ht
  have hlt : h < l.tcps := by
    by_contra hn
    cases (hi.fresh h (Nat.not_lt.mp hn)).symm.trans ht
  have hst : (if status = 0 then TcpState.connected else .refused) ≠ .connecting := by
    split <;> decide
  constructor
  case exact =>
    intro x
    have he := hi.exact x
    have hnew : (if x ∈ answered ++ [h] then 1 else 0) =
        (if x ∈ answered then 1 else 0) + holding (some h) x := by
      rcases eq_or_ne h x with rfl | hx
      · simp [holding, hnot]
      · simp [holding, hx, hx.symm]
    rw [frees_free, ptcp_free, hnew]
    dsimp only
    omega
  case fresh =>
    intro x hx
    have hne : x ≠ h := (hlt.trans_le hx).ne'
    exact (update_of_ne hne ..).trans (hi.fresh x hx)
  case newest =>
    intro x hx
    rw [ptcp_free]
    rcases hx with hm | hc
    · rcases List.mem_append.mp hm with hm | hm
      · exact hi.newest x (.inl hm)
      · obtain rfl := List.mem_singleton.mp hm
        exact hi.newest x (.inr ht)
    · exact hi.newest x (.inr (Update.of_update hst hc).2)
  case known =>
    rintro x (hm | hm | ⟨⟨⟩⟩)
    · rcases List.mem_append.mp hm with hm | hm
      · exact hi.known x (.inl hm)
      · obtain rfl := List.mem_singleton.mp hm
        exact hlt
    · rw [ptcp_free] at hm
      exact hi.known x (.inr (.inl hm))
    · exact hlt
  case ended =>
    intro x hm
    rcases List.mem_append.mp hm with hm | hm
    · exact hi.ended_update hnot x hm
    · obtain rfl := List.mem_singleton.mp hm
      exact (update_self ..).trans_ne hst
  case last =>
    rintro x y - hsub ⟨⟩
    exact hnot (mem_of_pair_sublist hsub)

theorem OwnInv.setTcp (hi : OwnInv answered l g) {st : TcpState} (hst : st ≠ .connecting)
    (hh : h < l.tcps) (b : Bool) :
    OwnInv answered { l with bConnectSuccess := b, tcp := update l.tcp h st } g := by
  constructor
  case exact => exact hi.exact
  case fresh =>
    intro x hx
    exact (update_of_ne (hh.trans_le hx).ne' ..).trans (hi.fresh x hx)
  case newest =>
    exact fun x hx => hi.newest x (hx.imp_right fun hc => (Update.of_update hst hc).2)
  case known => exact hi.known
  case ended =>
    intro x hm hc
    exact hi.ended x hm (Update.of_update hst hc).2
  case last => exact hi.last

theorem OwnInv.of_reading (hi : OwnInv answered l g) (b : Bool) (f : ℕ → Bool) :
    OwnInv answered { l with bConnectSuccess := b, reading := f } g :=
  ⟨hi.exact, hi.fresh, hi.newest, hi.known, hi.ended, hi.last⟩

/-! ## Steps -/

theorem created_eq_none (he : ∀ e ∈ es, e.isStream = false) :
    es.findSome? Event.created = none := by
  rw [List.findSome?_eq_none_iff]
  intro e hm
  have hq := he e hm
  cases e <;> first | rfl | cases hq

theorem answered_eq_nil (he : ∀ e ∈ es, e.isStream = false) :
    es.filterMap Event.answered = [] := by
  rw [List.filterMap_eq_nil_iff]
  intro e hm
  have hq := he e hm
  cases e <;> first | rfl | cases hq

theorem notify_owners (s : Uvconnect) (ev : EvType) (arg : ℤ) :
    (s.notify ev arg).findSome? Event.created = none ∧
      (s.notify ev arg).filterMap Event.answered = [] := by
  unfold notify
  split <;> exact ⟨rfl, rfl⟩

theorem StreamMove.quiet {l : Link} (hm : StreamMove s a l es) (ha : a.givesStream = false)
    (ht : l.tcps = s.tcps) : es.findSome? Event.created = none ∧
      es.filterMap Event.answered = [] := by
  cases hm with
  | stay a es _ he => exact ⟨created_eq_none he, answered_eq_nil he⟩
  | accept | connected => cases ha
  | dial err => exact absurd ht (Nat.succ_ne_self _)
  | close | readStart | readStop | orphan => exact ⟨rfl, rfl⟩
  | write r h err bytes fs _ _ he =>
    rw [List.findSome?_cons, List.filterMap_cons]
    exact ⟨created_eq_none he, answered_eq_nil he⟩
  | data h nread => exact notify_owners s _ _
  | lost h h' nread =>
    rw [List.findSome?_cons, List.filterMap_cons]
    exact notify_owners s _ _
  | closed h es _ he => exact ⟨created_eq_none he, answered_eq_nil he⟩

theorem resets_of_quiet (ha : a.givesStream = false) (he : es.findSome? Event.created = none) :
    s.resets a es g = g := by
  cases a with
  | registerloopAndStream | connectCb => cases ha
  | _ => simp only [resets, he]

theorem OwnInv.of_quiet (hi : OwnInv answered l g) (ha : a.givesStream = false)
    (hq : es.findSome? Event.created = none ∧ es.filterMap Event.answered = []) :
    OwnInv (answered ++ es.filterMap Event.answered) l (s.resets a es g) := by
  rw [hq.2, List.append_nil, resets_of_quiet ha hq.1]
  exact hi

theorem OwnInv.move {l : Link} (hi : OwnInv answered s.link g) (hm : StreamMove s a l es) :
    OwnInv (answered ++ es.filterMap Event.answered) l (s.resets a es g) := by
  have hquiet := hm.quiet
  cases hm with
  | stay a es ha he =>
    have hg : a.givesStream = false := by cases a <;> first | rfl | cases ha
    exact hi.of_quiet hg (hquiet hg rfl)
  | accept =>
    rw [List.filterMap_nil, List.append_nil]
    exact hi.accept
  | dial err =>
    rw [show List.filterMap Event.answered _ = [] from rfl, List.append_nil]
    exact hi.dial err
  | connected h status ht =>
    simp only [List.filterMap_cons, Event.answered, (notify_owners s _ _).2]
    exact hi.connected ht status
  | close h err _ hst =>
    have hh := hi.known h (.inr (.inr hst))
    exact (hi.setTcp (by decide) hh false).of_quiet rfl (hquiet rfl rfl)
  | readStart h err | readStop h err => exact (hi.of_reading _ _).of_quiet rfl (hquiet rfl rfl)
  | write | data | orphan => exact hi.of_quiet rfl (hquiet rfl rfl)
  | lost h h' nread => exact (hi.of_reading _ _).of_quiet rfl (hquiet rfl rfl)
  | closed h es ht he =>
    have hh : h < s.link.tcps := by
      by_contra hn
      cases (hi.fresh h (Nat.not_lt.mp hn)).symm.trans ht
    exact (hi.setTcp (by decide) hh _).of_quiet rfl (hquiet rfl rfl)

theorem ownInv_create (garbage : ℕ → EType) (send : ℕ → StSend) :
    OwnInv [] (create garbage send).link ⟨none, fun _ => 0⟩ :=
  ⟨fun _ => rfl, fun _ _ => rfl, by simp [link, create], by simp [link, create], by simp,
    fun _ _ _ _ => nofun⟩

theorem ownInv_of_reach {p : Uvconnect × Owners}
    (h : (pointing w).Reach (anyStep _ _) tr p) :
    OwnInv (tr.filterMap Event.answered) p.1.link p.2 := by
  refine h.invariant (I := fun tr p => OwnInv (tr.filterMap Event.answered) p.1.link p.2) ?_ ?_
  · rintro ⟨s, g⟩ ⟨⟨garbage, send, rfl⟩, rfl⟩
    exact ownInv_create garbage send
  · intro tr p a p' es _ hi _ hs
    obtain ⟨hs, hp⟩ := System.observed_step.mp hs
    rw [List.filterMap_append, hp]
    exact hi.move (streamMove hs)

structure Freed (tr : List Event) (p : Uvconnect × Owners) : Prop where
  /-- No handle is freed more than twice. -/
  le_two : ∀ h, p.2.frees h ≤ 2
  /-- Those are freed twice that were dialled and whose connect callback has run, once both
  pointers hold another handle. -/
  twice_iff : ∀ h, p.2.frees h = 2 ↔
    (∃ status, .connectCb h status ∈ tr) ∧ p.2.ptcp ≠ some h ∧ p.1.stream ≠ some h
  /-- That is the fate of every handle after which another was dialled and has answered. -/
  redialled : ∀ h h' status status', h < h' →
    [.connectCb h status, .connectCb h' status'].Sublist tr → p.2.frees h = 2

theorem mem_answered : h ∈ tr.filterMap Event.answered ↔ ∃ status, .connectCb h status ∈ tr := by
  rw [List.mem_filterMap]
  constructor
  · rintro ⟨e, he, ha⟩
    cases e with
    | connectCb x status =>
      obtain rfl := Option.some.inj ha
      exact ⟨status, he⟩
    | _ => cases ha
  · rintro ⟨status, he⟩
    exact ⟨_, he, rfl⟩

theorem holding_eq_zero {o : Option ℕ} : holding o h = 0 ↔ o ≠ some h := by
  simp [holding]

/-- A handle that has had two owners, neither of which holds it, has been freed twice. -/
theorem OwnInv.twice_iff (hi : OwnInv answered l g) :
    g.frees h = 2 ↔ h ∈ answered ∧ g.ptcp ≠ some h ∧ l.stream ≠ some h := by
  have he := hi.exact h
  rw [← holding_eq_zero, ← holding_eq_zero]
  by_cases hm : h ∈ answered
  · rw [if_pos (hi.known h (.inl hm)), if_pos hm] at he
    exact ⟨fun h2 => ⟨hm, by omega, by omega⟩, fun hz => by omega⟩
  · rw [if_neg hm] at he
    have hle : (if h < l.tcps then 1 else 0) ≤ 1 := by split <;> omega
    exact ⟨fun h2 => by omega, fun hz => (hm hz.1).elim⟩

/-- In every history of a connection its handles are freed as often as this. -/
theorem freed_of_reach {p : Uvconnect × Owners} (hr : (pointing w).Reach (anyStep _ _) tr p) :
    Freed tr p := by
  have hi := ownInv_of_reach hr
  have htwice : ∀ h, p.2.frees h = 2 ↔
      (∃ status, .connectCb h status ∈ tr) ∧ p.2.ptcp ≠ some h ∧ p.1.stream ≠ some h := by
    intro h
    rw [← mem_answered]
    exact hi.twice_iff
  constructor
  case le_two =>
    intro h
    have he := hi.exact h
    have hlt : (if h < p.1.link.tcps then 1 else 0) ≤ 1 := by split <;> omega
    have hm : (if h ∈ tr.filterMap Event.answered then 1 else 0) ≤ 1 := by split <;> omega
    omega
  case twice_iff => exact htwice
  case redialled =>
    intro h h' status status' hlt hsub
    have hpair : [h, h'].Sublist (tr.filterMap Event.answered) := hsub.filterMap Event.answered
    have hlater : h' ∈ tr.filterMap Event.answered := hpair.subset (by simp)
    obtain ⟨q, hq, hle⟩ := hi.newest h' (.inl hlater)
    refine hi.twice_iff.mpr ⟨hpair.subset (by simp), ?_, hi.last h h' hlt.ne hpair⟩
    rw [hq]
    exact fun he => by have := Option.some.inj he; omega

/-- A connection that has reconnected once. -/
theorem freed_of_reach_example : ∃ tr p, (pointing 64).Reach (anyStep _ _) tr p ∧
    [.connectCb 0 0, .connectCb 1 0].Sublist tr ∧ p.2.frees 0 = 2 ∧ Freed tr p := by
  obtain ⟨tr, p, hr, hp⟩ := System.exists_run_of_exec (M := pointing 64) (G := anyStep _ _)
    (s := (create (fun _ => .loopStop) fun _ => ⟨⟨none, 0, 0, 0⟩, ⟨none, 0⟩⟩,
      ⟨none, fun _ => 0⟩))
    [.registerConnect, .setIPAndAddr ("127.0.0.1", 7), .run 1, .setRunning 1,
      .request 1 .connectToServer, .addReq 1, .lock 1, .turn (.fire 0), .perform 0,
      .turn .tcbReturn, .turn .recycle, .connectCb 0 0,
      .request 1 .reconnnect, .addReq 1, .lock 1, .turn (.fire 1), .perform 0,
      .turn .tcbReturn, .turn .recycle, .closeCb 0,
      .turn (.fire 2), .perform 0, .turn .tcbReturn, .turn .recycle, .connectCb 1 0]
    (p := fun p tr => decide ([.connectCb 0 0, .connectCb 1 0].Sublist tr ∧ p.2.frees 0 = 2))
    (by decide +kernel)
  have h : (pointing 64).Reach (anyStep _ _) tr p := ⟨_, ⟨⟨_, _, rfl⟩, rfl⟩, hr⟩
  exact ⟨tr, p, h, (of_decide_eq_true hp).1, (of_decide_eq_true hp).2, freed_of_reach h⟩

end UvWrapper.Uvconnect
