import UvWrapper.Uvcpp.Link

/-! # How callbacks find their object

Each callback of libuv casts a `data` field back to `uvcpp *`. `connect` assigns that of the
connect request before every attempt. That of the tcp handle is assigned in `inner_close` and
nowhere else, so the close callback finds it, and the read callback on a first connection does
not.
-/

namespace UvWrapper.Uvcpp

open Transition

variable {s s' : Uvcpp} {a : Act} {es tr : List Event} {b : Bool} {nread : ℤ}
  {G : Uvcpp → Act → Prop}

/-- In the runs whose steps satisfy `G` no callback casts a `data` field that has not been
assigned. -/
def CallbacksFind (G : Uvcpp → Act → Prop) : Prop :=
  ∀ tr s a s' es, client.Reach G tr s → G s a → s.step a = some (s', es) →
    .castConn false ∉ es ∧ .castTcp false ∉ es

/-- The handle has been closed with `uv_close` before. -/
def ClosedBefore (tr : List Event) : Prop := .uvClose true .connected ∈ tr

instance (tr : List Event) : Decidable (ClosedBefore tr) := inferInstanceAs (Decidable (_ ∈ _))

/-- In the runs whose steps satisfy `G` no read callback comes on a first connection. -/
def ReadsAfterClose (G : Uvcpp → Act → Prop) : Prop :=
  ∀ tr s nread s' es, client.Reach G tr s → G s (.readCb nread) →
    s.step (.readCb nread) = some (s', es) → ClosedBefore tr

def neverConnects (_ : Uvcpp) : Act → Prop
  | .connectCb status => status ≠ 0
  | _ => True

/-! ## One step -/

theorem LinkOk.innerClose_data (h : s.LinkOk) :
    s.innerClose.1.connData = s.connData ∧
      (s.innerClose.1.tcpData = true ↔
        s.tcpData = true ∨ .uvClose true .connected ∈ s.innerClose.2) ∧
      ∀ e ∈ s.innerClose.2, e = .innerClose ∨ e = .uvClose true .connected := by
  unfold Uvcpp.innerClose
  split
  · simp
  · next hn =>
    have ht := h.normal_iff.mp (by simpa using hn)
    simp [h.handle_of_connected ht, ht]

/-- The `data` fields are assigned in `connect` and where the handle is closed. -/
structure DataFrame (s s' : Uvcpp) (es : List Event) : Prop where
  conn : s'.connData = true ↔ s.connData = true ∨ ∃ addr, .tcpConnect addr ∈ es
  tcp : s'.tcpData = true ↔ s.tcpData = true ∨ ClosedBefore es

theorem DataFrame.of_eq (hc : s'.connData = s.connData) (ht : s'.tcpData = s.tcpData)
    (he : ∀ e ∈ es, e.isLink = false) : DataFrame s s' es := by
  have hnot : ∀ e, Event.isLink e = true → e ∉ es := fun e hl hm => by simp [he e hm] at hl
  constructor
  · rw [hc]
    exact (or_iff_left fun ⟨addr, hm⟩ => hnot _ rfl hm).symm
  · rw [ht]
    exact (or_iff_left (hnot _ rfl)).symm

theorem LinkOk.dataFrame_innerClose (h : s.LinkOk) (fs : List Event)
    (hf : .uvClose true .connected ∉ fs ∧ ∀ addr, .tcpConnect addr ∉ fs) :
    DataFrame s s.innerClose.1 (fs ++ s.innerClose.2) := by
  obtain ⟨hc, ht, he⟩ := h.innerClose_data
  have hn : ∀ addr, .tcpConnect addr ∉ fs ++ s.innerClose.2 := by
    intro addr hm
    rcases List.mem_append.mp hm with hm | hm
    · exact hf.2 addr hm
    · rcases he _ hm with h | h <;> cases h
  constructor
  · rw [hc]
    exact (or_iff_left fun ⟨addr, hm⟩ => hn addr hm).symm
  · rw [ht, ClosedBefore, List.mem_append, or_iff_right hf.1]

theorem StepCases.dataFrame (h : StepCases s a s' es) (hl : s.LinkInv) : DataFrame s s' es := by
  cases h with
  | connect => exact ⟨by simp [Uvcpp.connect], by simp [Uvcpp.connect, ClosedBefore]⟩
  | append t buf re ma =>
    rw [append_frame]
    exact .of_eq rfl rfl (by simp [Uvcpp.append, Event.isLink])
  | process ev rest n hp =>
    have hok : LinkOk { s with point := .polling } := hl.ok
    cases ev with
    | send =>
      simp only [Uvcpp.process]
      rw [write_frame]
      refine .of_eq rfl rfl fun e he => ?_
      have hn := List.filter_eq_nil_iff.mp (filter_write _ _) e he
      simpa using hn
    | closeConn =>
      have h := hok.dataFrame_innerClose [] (by simp)
      exact ⟨h.conn, h.tcp⟩
    | stopLoop =>
      have h := hok.dataFrame_innerClose [.innerStop] (by simp)
      simp only [Uvcpp.process]
      rw [innerStop_frame]
      exact ⟨h.conn, h.tcp⟩
    | null => exact .of_eq rfl rfl (by simp [Uvcpp.process])
  | connectCb status _ ht =>
    unfold connected
    split
    · exact ⟨by simp, by simp [ClosedBefore]⟩
    · have hlink := hl.ok
      simp only [LinkOk, ht] at hlink
      have hok : LinkOk { s with tcpHandle := true, tcp := .refused } := ⟨hlink.1, rfl⟩
      have h := hok.dataFrame_innerClose [.castConn s.connData, .connectCb status] (by simp)
      exact ⟨h.conn, h.tcp⟩
  | readCb nread =>
    unfold readDone
    split
    · exact hl.ok.dataFrame_innerClose _ (by simp)
    · split <;> exact .of_eq rfl rfl (by simp [Event.isLink])
  | closeCb err =>
    unfold closed
    split
    · dsimp only
      split
      · exact ⟨by simp [Uvcpp.connect], by simp [Uvcpp.connect, ClosedBefore]⟩
      · exact .of_eq rfl rfl (by simp [Event.isLink])
    · exact .of_eq rfl rfl (by simp [Event.isLink])
  | insert | close | stop => exact .of_eq rfl rfl (by simp [Event.isLink])
  | _ => exact .of_eq rfl rfl (by simp)

def Event.isCast : Event → Bool
  | .castConn _ | .castTcp _ => true
  | _ => false

theorem innerClose_isCast (s : Uvcpp) : ∀ e ∈ s.innerClose.2, e.isCast = false := by
  unfold Uvcpp.innerClose
  split <;> simp [Event.isCast]

theorem process_isCast (s : Uvcpp) (ev : EventType) (rest : List EventType) (n : ℤ) :
    ∀ e ∈ (s.process ev rest n).2, e.isCast = false := by
  cases ev with
  | send =>
    simp only [process, write]
    split
    · simp
    · split <;> simp [Event.isCast]
  | closeConn => exact innerClose_isCast _
  | stopLoop => exact List.forall_mem_cons.mpr ⟨rfl, innerClose_isCast _⟩
  | null => simp [process]

inductive Casts (s : Uvcpp) (a : Act) : Event → Prop
  | conn (status : ℤ) : a = .connectCb status → s.tcp = .connecting →
      Casts s a (.castConn s.connData)
  | read (nread : ℤ) : a = .readCb nread → Casts s a (.castTcp s.tcpData)
  | close (err : ℤ) : a = .closeCb err → s.tcp = .closing → Casts s a (.castTcp s.tcpData)

theorem StepCases.casts {e : Event} (h : StepCases s a s' es) (he : e ∈ es)
    (hc : e.isCast = true) : Casts s a e := by
  cases h with
  | process ev rest n => simp [process_isCast _ _ _ _ e he] at hc
  | connectCb status _ ht =>
    refine (?_ : e = .castConn s.connData) ▸ .conn status rfl ht
    unfold connected at he
    split at he
    · simp only [List.mem_cons, List.not_mem_nil, or_false] at he
      rcases he with rfl | rfl | rfl <;> first | rfl | cases hc
    · rcases List.mem_append.mp he with he | he
      · simp only [List.mem_cons, List.not_mem_nil, or_false] at he
        rcases he with rfl | rfl <;> first | rfl | cases hc
      · simp [innerClose_isCast _ e he] at hc
  | readCb nread =>
    refine (?_ : e = .castTcp s.tcpData) ▸ .read nread rfl
    unfold readDone at he
    split at he
    · rcases List.mem_append.mp he with he | he
      · simp only [List.mem_cons, List.not_mem_nil, or_false] at he
        rcases he with rfl | rfl <;> first | rfl | cases hc
      · simp [innerClose_isCast _ e he] at hc
    · split at he
      · simp only [List.mem_cons, List.not_mem_nil, or_false] at he
        rcases he with rfl | rfl <;> first | rfl | cases hc
      · exact List.mem_singleton.mp he
  | closeCb err _ ht =>
    refine (?_ : e = .castTcp s.tcpData) ▸ .close err rfl ht
    unfold closed at he
    split at he
    · split at he
      · simp only [Uvcpp.connect, List.mem_cons, List.not_mem_nil, or_false] at he
        rcases he with rfl | rfl | rfl <;> first | rfl | cases hc
      · exact List.mem_singleton.mp he
    · exact List.mem_singleton.mp he
  | connect | append | insert | close | stop =>
    simp only [Uvcpp.connect, Uvcpp.append, List.mem_cons, List.not_mem_nil, or_false] at he
    rcases he with rfl | rfl <;> cases hc
  | run | setAutoReconnect | asyncSend | asyncEnter | swap | asyncReturn | asyncCloseCb | leave =>
    simp at he

theorem castTcp_mem_readDone (s : Uvcpp) (nread : ℤ) :
    .castTcp s.tcpData ∈ (s.readDone nread).2 := by
  unfold readDone
  split
  · exact List.mem_append_left _ List.mem_cons_self
  · split <;> exact List.mem_cons_self

/-! ## Whole runs -/

/-- A connect request under way has its `data`, and the handle has its own from its first
close on. -/
structure DataInv (tr : List Event) (s : Uvcpp) : Prop where
  conn : s.tcp = .connecting → s.connData = true
  tcp : s.tcpData = true ↔ ClosedBefore tr
  closing : s.tcp = .closing → s.tcpData = true

theorem mem_of_filter {e : Event} {p : Event → Bool} (h : e ∈ es.filter p) : e ∈ es :=
  (List.mem_filter.mp h).1

theorem DataInv.step (hi : DataInv tr s) (hl : s.LinkInv) (hs : s.step a = some (s', es)) :
    DataInv (tr ++ es) s' := by
  have hf := (step_cases hs).dataFrame hl
  obtain ⟨-, hm⟩ := hl.step hs
  constructor
  case conn =>
    intro ht
    rw [hf.conn]
    generalize hst : s'.tcp = st', hfs : es.filter Event.isLink = fs at hm ht
    cases hm with
    | stay => exact .inl (hi.conn ht)
    | dial | redial =>
      exact .inr ⟨_, mem_of_filter (by rw [hfs]; exact List.mem_cons_of_mem _ List.mem_cons_self)⟩
    | established | refused | close | closed => cases ht
  case tcp => rw [hf.tcp, hi.tcp, ClosedBefore, ClosedBefore, ClosedBefore, List.mem_append]
  case closing =>
    intro ht
    rw [hf.tcp]
    generalize hst : s'.tcp = st', hfs : es.filter Event.isLink = fs at hm ht
    cases hm with
    | stay => exact .inl (hi.closing ht)
    | close => exact .inr (mem_of_filter (by rw [hfs]; exact List.mem_cons_self))
    | dial host port err | redial err =>
      split at ht <;> cases ht
    | established | refused | closed => cases ht

theorem dataInv_of_reach (h : client.Reach G tr s) : DataInv tr s := by
  refine h.invariant (I := DataInv) ?_ fun tr s a s' es hr hi _ hs =>
    hi.step (linkInv_of_reach hr) hs
  rintro s ⟨blk, -, rfl⟩
  exact ⟨nofun, by simp [create, ClosedBefore], nofun⟩

/-- Of all callbacks only a read callback on a first connection misses its object. -/
theorem finds_iff (h : client.Reach G tr s) (hs : s.step a = some (s', es)) :
    (.castConn false ∉ es ∧ .castTcp false ∉ es) ↔
      ∀ nread, a = .readCb nread → ClosedBefore tr := by
  have hi := dataInv_of_reach h
  have hc := step_cases hs
  constructor
  · rintro ⟨-, hn⟩ nread rfl
    rw [← hi.tcp, ← Bool.not_eq_false]
    intro hd
    cases hc with
    | readCb => exact hn (hd ▸ castTcp_mem_readDone s nread)
  · intro hread
    have hnone : ∀ e ∈ es, e = .castConn false ∨ e = .castTcp false → False := by
      intro e he hfalse
      have hcast : e.isCast = true := by rcases hfalse with rfl | rfl <;> rfl
      cases hc.casts he hcast with
      | conn status _ ht => simp [hi.conn ht] at hfalse
      | read nread ha => simp [hi.tcp.mpr (hread nread ha)] at hfalse
      | close err _ ht => simp [hi.closing ht] at hfalse
    exact ⟨fun he => hnone _ he (.inl rfl), fun he => hnone _ he (.inr rfl)⟩

theorem LinkInv.of_established (hl : s.LinkInv) (hs : s.step a = some (s', es))
    (ht' : s'.tcp = .connected) (ht : s.tcp ≠ .connected) :
    a = .connectCb 0 ∧ s'.point = .polling ∧ ¬ ClosedBefore es := by
  obtain ⟨-, hm⟩ := hl.step hs
  generalize hst : s'.tcp = st', hfs : es.filter Event.isLink = fs at hm ht'
  cases hm with
  | stay => exact (ht ht').elim
  | dial | redial => split at ht' <;> cases ht'
  | established =>
    have hc : StepCases s (.connectCb 0) s' es := step_cases hs
    refine ⟨rfl, ?_, fun hclosed => ?_⟩
    · cases hc with
      | connectCb _ hp => simpa [connected] using hp
    · have hmem : .uvClose true .connected ∈ es.filter Event.isLink :=
        List.mem_filter.mpr ⟨hclosed, rfl⟩
      simp [hfs] at hmem
  | refused | close | closed => cases ht'

theorem not_connected_of_readsAfterClose (hG : ∀ s nread, G s (.readCb nread))
    (hr : ReadsAfterClose G) (h : client.Reach G tr s) :
    s.tcp ≠ .connected ∧ ¬ ClosedBefore tr := by
  refine h.invariant (I := fun tr s => s.tcp ≠ .connected ∧ ¬ ClosedBefore tr) ?_ ?_
  · rintro s ⟨blk, -, rfl⟩
    exact ⟨nofun, List.not_mem_nil⟩
  · rintro tr s a s' es h ⟨ht, hn⟩ hg hs
    have hl := linkInv_of_reach h
    have hclosed : ¬ ClosedBefore es := by
      intro he
      obtain ⟨-, hm⟩ := hl.step hs
      have hmem : .uvClose true .connected ∈ es.filter Event.isLink := List.mem_filter.mpr ⟨he, rfl⟩
      generalize hst : s'.tcp = st', hfs : es.filter Event.isLink = fs at hm hmem
      cases hm with
      | close _ hc => exact ht hc
      | _ => simp at hmem
    have hn' : ¬ ClosedBefore (tr ++ es) := fun he => (List.mem_append.mp he).elim hn hclosed
    refine ⟨fun ht' => ?_, hn'⟩
    obtain ⟨-, hp, -⟩ := hl.of_established hs ht' ht
    exact hn' (hr _ _ 0 _ _ (h.step hg hs) (hG _ _) (if_pos ⟨hp, ht'⟩))

/-- Where libuv may read whenever there is a connection, reads come after a close only if no
attempt to connect ever succeeds. -/
theorem readsAfterClose_iff (hG : ∀ s nread, G s (.readCb nread)) :
    ReadsAfterClose G ↔ client.Always G neverConnects := by
  constructor
  · intro hr tr s a s' es h hg hs
    have hn := (not_connected_of_readsAfterClose hG hr (h.step hg hs)).1
    cases a with
    | connectCb status =>
      rintro rfl
      have hc : StepCases s (.connectCb 0) s' es := step_cases hs
      cases hc with
      | connectCb => exact hn (by simp [connected])
    | _ => trivial
  · intro hn tr s nread s' es h _ hs
    have ht : s.tcp ≠ .connected := by
      refine h.stateInvariant (I := fun s => s.tcp ≠ .connected) ?_ ?_
      · rintro s ⟨blk, -, rfl⟩
        simp [create]
      · intro tr s a s' es h ht hg hs ht'
        obtain ⟨rfl, -⟩ := (linkInv_of_reach h).of_established hs ht' ht
        exact hn tr s _ s' es h hg hs rfl
    cases step_cases hs with
    | readCb _ _ hc => exact (ht hc).elim

/-- In the runs of `G` every callback finds its object if and only if no read callback comes on
a first connection; and where libuv may read whenever there is a connection, if and only if no
attempt to connect succeeds. -/
theorem callbacksFind_iff (G : Uvcpp → Act → Prop) :
    (CallbacksFind G ↔ ReadsAfterClose G) ∧
      ((∀ s nread, G s (.readCb nread)) →
        (CallbacksFind G ↔ client.Always G neverConnects)) := by
  have hiff : CallbacksFind G ↔ ReadsAfterClose G := by
    constructor
    · intro hf tr s nread s' es h hg hs
      exact (finds_iff h hs).mp (hf tr s _ s' es h hg hs) nread rfl
    · intro hr tr s a s' es h hg hs
      apply (finds_iff h hs).mpr
      rintro nread rfl
      exact hr tr s nread s' es h hg hs
  exact ⟨hiff, fun hG => hiff.trans (readsAfterClose_iff hG)⟩

/-- Five bytes arrive on the first connection. -/
theorem not_callbacksFind : ¬ CallbacksFind (anyStep Uvcpp Act) := by
  intro hf
  obtain ⟨tr, s, hr, hp⟩ := System.exists_run_of_exec (M := client)
    (G := anyStep Uvcpp Act) (s := create ⟨1, List.replicate clientBufferLen 0⟩)
    [.connect "127.0.0.1" 50000 0, .run, .connectCb 0]
    (p := fun s tr => decide (¬ ClosedBefore tr ∧ s.point = .polling ∧ s.tcp = .connected))
    (by decide +kernel)
  obtain ⟨hn, hp⟩ := of_decide_eq_true hp
  have h : client.Reach (anyStep Uvcpp Act) tr s := ⟨_, ⟨_, List.length_replicate, rfl⟩, hr⟩
  exact hn (((callbacksFind_iff _).1.mp hf) tr s 5 _ _ h trivial (if_pos hp))

end UvWrapper.Uvcpp
