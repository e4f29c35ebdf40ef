import UvWrapper.Uvcpp.Works
import UvWrapper.Uvcpp.Link
import UvWrapper.Uvcpp.SendBuffer
import Mathlib.Data.Finset.Insert

/-! # Bytes that wait and the event that will write them

Bytes are in the buffer under one lock and their `EV_SEND` is in the map under another.
What ties them together on an established connection is that some event is still ahead: in
the map, in the rest of the batch, or about to be inserted by a caller. A write that leaves
bytes behind, or a connect that finds some, ends this where no other event happens to be
ahead.
-/

namespace UvWrapper.Uvcpp

open Function OrderedMap Transition

variable {s s' : Uvcpp} {a : Act} {es tr : List Event} {n status nread err : ℤ} {w : Works}
  {G : Uvcpp → Act → Prop} {l rest : List EventType}

/-- An event is in the map or in the rest of the batch, or `send` is about to insert one. -/
def EventAhead (s : Uvcpp) : Prop :=
  inOrder s.works ≠ [] ∨ (∃ t, s.caller t = .appended) ∨ ∃ ev rest, s.point = .batch (ev :: rest)

/-- On an established connection an event is ahead of the bytes that wait. -/
def Served (s : Uvcpp) : Prop :=
  s.statusNormal = true → s.sendOffset = 0 ∨ s.EventAhead

/-- The drain of a map meets an `EV_SEND` before it ends. -/
def reachesSend : List EventType → Bool
  | [] | .closeConn :: _ | .stopLoop :: _ => false
  | .send :: _ => true
  | .null :: rest => reachesSend rest

/-- The map holds an `EV_SEND` that its drain reaches, or an `EV_CLOSE_CONN` or an
`EV_STOP_LOOP`. -/
def Attended (w : Works) : Prop :=
  reachesSend (inOrder w) = true ∨ .closeConn ∈ inOrder w ∨ .stopLoop ∈ inOrder w

structure Quiescent (s : Uvcpp) : Prop where
  entered : s.point ≠ .entered
  batch : ∀ l, s.point ≠ .batch l
  callers : ∀ t, s.caller t ≠ .appended ∧ s.caller t ≠ .inserted .send

/-- In the runs whose steps satisfy `G` no established connection is left with bytes in
the buffer and no event for them. -/
def NoStranding (G : Uvcpp → Act → Prop) : Prop :=
  ∀ tr s, client.Reach G tr s → s.Quiescent → s.statusNormal = true → 0 < s.sendOffset →
    Attended s.works

/-- A write on an established connection empties the buffer or has an event behind it,
and a connect succeeds with nothing in the buffer or with an event ahead. -/
def movesOn (s : Uvcpp) : Act → Prop
  | .process n => ∀ rest, s.point = .batch (.send :: rest) → s.statusNormal = true →
      (s.sendOffset = 0 ∨ n = s.sendOffset) ∨ EventAhead { s with point := .batch rest }
  | .connectCb status => status = 0 → s.sendOffset = 0 ∨ s.EventAhead
  | _ => True

theorem Filed.null_not_mem (hw : Filed w) : .null ∉ inOrder w := by
  intro h
  obtain ⟨k, hk⟩ := mem_inOrder.mp h
  rcases hw k _ hk with h | ⟨h, -⟩ | ⟨h, -⟩ <;> cases h

theorem Filed.attended_iff (hw : Filed w) : Attended w ↔ inOrder w ≠ [] := by
  have hnull := hw.null_not_mem
  unfold Attended
  cases h : inOrder w with
  | nil => simp [reachesSend]
  | cons ev rest =>
    rw [h] at hnull
    cases ev <;> simp_all [reachesSend]

theorem Quiescent.eventAhead_iff (h : s.Quiescent) : s.EventAhead ↔ inOrder s.works ≠ [] := by
  constructor
  · rintro (hw | ⟨t, ht⟩ | ⟨ev, rest, hp⟩)
    · exact hw
    · exact ((h.callers t).1 ht).elim
    · exact (h.batch _ hp).elim
  · exact .inl

/-- With no callback running and no caller inside `send`, to be served is not to be
stranded. -/
theorem Quiescent.served_iff (h : s.Quiescent) (hw : Filed s.works) :
    s.Served ↔ (s.statusNormal = true → 0 < s.sendOffset → Attended s.works) := by
  rw [Served, h.eventAhead_iff, hw.attended_iff]
  apply imp_congr_right
  intro _
  rw [or_iff_not_imp_left, Nat.pos_iff_ne_zero]

theorem null_not_mem_batch (h : client.Reach G tr s) (hp : s.point = .batch l) : .null ∉ l := by
  refine h.stateInvariant (I := fun s => ∀ l, s.point = .batch l → .null ∉ l) ?_ ?_ l hp
  · rintro s ⟨blk, -, rfl⟩ l hl
    cases hl
  · intro tr s a s' es hr hi _ hs l hl
    rw [(step_cases hs).frame.point] at hl
    cases a with
    | swap =>
      obtain rfl := LoopPoint.batch.inj hl
      exact (filed_of_reach hr).null_not_mem
    | process n =>
      simp only [nextPoint] at hl
      split at hl
      · next ev rest hb =>
        split at hl
        · cases hl
        · obtain rfl := LoopPoint.batch.inj hl
          exact fun hm => hi _ hb (List.mem_cons_of_mem _ hm)
      · exact hi l hl
    | run | asyncEnter | asyncReturn | leave => cases hl
    | _ => exact hi l hl

theorem eventAhead_congr (hw : s'.works = s.works) (hc : s'.caller = s.caller)
    (hp : s'.point = s.point) : s'.EventAhead ↔ s.EventAhead := by
  simp only [EventAhead, hw, hc, hp]

theorem EventAhead.leave_point (h : s.EventAhead) (hp : ∀ ev rest, s.point ≠ .batch (ev :: rest))
    (hw : s'.works = s.works) (hc : s'.caller = s.caller) : s'.EventAhead := by
  rcases h with h | ⟨t, h⟩ | ⟨ev, rest, h⟩
  · exact .inl (hw ▸ h)
  · exact .inr (.inl ⟨t, hc ▸ h⟩)
  · exact (hp ev rest h).elim

theorem write_sendOffset (s : Uvcpp) (n : ℤ) :
    (s.write n).1.sendOffset = s.sendOffset - n.toNat := by
  unfold write
  split_ifs with h0 hn
  · simp [h0]
  · rfl
  · simp only; omega

theorem innerClose_statusNormal (s : Uvcpp) : s.innerClose.1.statusNormal = false := by
  rw [innerClose_frame]

theorem innerStop_statusNormal (s : Uvcpp) : s.innerStop.1.statusNormal = false := by
  rw [innerStop_frame]
  exact innerClose_statusNormal s

theorem served_of_abnormal (h : s.statusNormal = false) : s.Served := fun hn => by
  rw [h] at hn; cases hn

theorem Served.keep (h : s.Served) (hn : s'.statusNormal = s.statusNormal)
    (ho : s'.sendOffset = s.sendOffset) (he : s.EventAhead → s'.EventAhead) : s'.Served :=
  fun hn' => (h (hn ▸ hn')).imp ho.trans he

/-- An `EV_SEND` leaves the connection served if it empties the buffer or if an event
comes after it. -/
theorem served_write_iff (hp : s.point = .batch (.send :: rest)) (hn : n ≤ s.sendOffset) :
    ({ s with point := .batch rest }.write n).1.Served ↔ movesOn s (.process n) := by
  have hframe := write_frame { s with point := .batch rest } n
  have hnormal : ({ s with point := .batch rest }.write n).1.statusNormal = s.statusNormal := by
    rw [hframe]
  have hahead : ({ s with point := .batch rest }.write n).1.EventAhead ↔
      EventAhead { s with point := .batch rest } :=
    eventAhead_congr (by rw [hframe]) (by rw [hframe]) (by rw [hframe])
  have hoffset : ({ s with point := .batch rest }.write n).1.sendOffset = 0 ↔
      s.sendOffset = 0 ∨ n = s.sendOffset := by
    rw [write_sendOffset]
    simp only
    omega
  rw [Served, hnormal, hahead, hoffset]
  constructor
  · intro h rest' hp'
    obtain ⟨-, rfl⟩ := List.cons.inj (LoopPoint.batch.inj (hp.symm.trans hp'))
    exact h
  · intro h
    exact h rest hp

/-- A connect leaves the connection served if it finds the buffer empty or an event
ahead. -/
theorem served_connected_iff : (s.connected status).1.Served ↔ movesOn s (.connectCb status) := by
  rcases eq_or_ne status 0 with rfl | h0
  · have he : (s.connected 0).1 =
        { s with tcpHandle := true, tcp := .connected, statusNormal := true } := by
      simp [connected]
    have hahead : (s.connected 0).1.EventAhead ↔ s.EventAhead := by
      rw [he]
      exact eventAhead_congr rfl rfl rfl
    rw [Served, hahead, he]
    exact ⟨fun h _ => h rfl, fun h _ => h rfl⟩
  · have hn : (s.connected status).1.statusNormal = false := by
      simp [connected, h0, innerClose_statusNormal]
    exact iff_of_true (served_of_abnormal hn) fun h => (h0 h).elim

theorem Served.readDone (h : s.Served) : (s.readDone nread).1.Served := by
  rcases lt_or_ge nread 0 with hn | hn
  · apply served_of_abnormal
    simp only [Uvcpp.readDone, if_pos hn, innerClose_statusNormal]
  · have he : (s.readDone nread).1 = s := by
      simp only [Uvcpp.readDone, if_neg (not_lt.mpr hn)]
      split <;> rfl
    rwa [he]

theorem Served.closed (h : s.Served) : (s.closed err).1.Served := by
  unfold Uvcpp.closed
  split
  · dsimp only
    split <;> exact h.keep rfl rfl (eventAhead_congr rfl rfl rfl).mpr
  · exact h.keep rfl rfl (eventAhead_congr rfl rfl rfl).mpr

/-- Being served is lost exactly where a step does not move on. -/
theorem Served.step_iff (h : s.Served) (hb : ∀ l, s.point = .batch l → .null ∉ l)
    (hs : s.step a = some (s', es)) : s'.Served ↔ movesOn s a := by
  cases step_cases hs with
  | connect | setAutoReconnect | asyncCloseCb =>
    exact iff_of_true (h.keep rfl rfl (eventAhead_congr rfl rfl rfl).mpr) trivial
  | append t buf re ma =>
    exact iff_of_true (fun _ => .inr (.inr (.inl ⟨t, update_self ..⟩))) trivial
  | insert | close | stop =>
    exact iff_of_true (fun _ => .inr (.inl inOrder_insertIfNew_ne_nil)) trivial
  | asyncSend t ev hc =>
    refine iff_of_true (h.keep rfl rfl ?_) trivial
    rintro (hw | ⟨u, hu⟩ | hp)
    · exact .inl hw
    · have hne : u ≠ t := fun e => by cases (e ▸ hu).symm.trans hc
      exact .inr (.inl ⟨u, (update_of_ne hne ..).trans hu⟩)
    · exact .inr (.inr hp)
  | run hp | asyncEnter hp | asyncReturn hp | leave hp =>
    refine iff_of_true (h.keep rfl rfl fun he => he.leave_point ?_ rfl rfl) trivial
    intro ev rest he
    cases hp.symm.trans he
  | swap hp =>
    refine iff_of_true (h.keep rfl rfl ?_) trivial
    rintro (hw | hc | ⟨ev, rest, he⟩)
    · obtain ⟨ev, rest, he⟩ := List.exists_cons_of_ne_nil hw
      exact .inr (.inr ⟨ev, rest, congrArg LoopPoint.batch he⟩)
    · exact .inr (.inl hc)
    · cases hp.symm.trans he
  | process ev rest n hp hn =>
    cases ev with
    | send => exact served_write_iff hp hn
    | closeConn =>
      apply iff_of_true (served_of_abnormal (innerClose_statusNormal _))
      intro rest' hp'
      cases hp.symm.trans hp'
    | stopLoop =>
      apply iff_of_true (served_of_abnormal (innerStop_statusNormal _))
      intro rest' hp'
      cases hp.symm.trans hp'
    | null => exact (hb _ hp List.mem_cons_self).elim
  | connectCb status => exact served_connected_iff
  | readCb nread => exact iff_of_true h.readDone trivial
  | closeCb err => exact iff_of_true h.closed trivial

theorem served_of_movesOn (hm : client.Always G movesOn) (h : client.Reach G tr s) : s.Served := by
  refine h.stateInvariant ?_ fun tr s a s' es hr hi hg hs =>
    (hi.step_iff (fun _ => null_not_mem_batch hr) hs).mpr (hm tr s a s' es hr hg hs)
  rintro s ⟨blk, -, rfl⟩
  exact served_of_abnormal rfl

/-! ## Every step that does not move on strands bytes -/

/-- Calls end: the async callback may return and a caller may signal it. -/
structure LetsReturn (G : Uvcpp → Act → Prop) : Prop where
  callback : ∀ s, G s .asyncReturn
  caller : ∀ s t, G s (.asyncSend t)

theorem exists_callers (h : client.Reach G tr s) :
    ∃ F : Finset ℕ, ∀ t, s.caller t ≠ .idle → t ∈ F := by
  refine h.stateInvariant (I := fun s => ∃ F : Finset ℕ, ∀ t, s.caller t ≠ .idle → t ∈ F) ?_ ?_
  · rintro s ⟨blk, -, rfl⟩
    exact ⟨∅, fun t ht => (ht rfl).elim⟩
  · rintro tr s a s' es - ⟨F, hF⟩ - hs
    have hupd : ∀ u c, ∀ t, update s.caller u c t ≠ .idle → t ∈ insert u F := by
      intro u c t ht
      rcases eq_or_ne t u with rfl | htu
      · exact Finset.mem_insert_self ..
      · exact Finset.mem_insert_of_mem (hF t (by simpa [htu] using ht))
    rw [(step_cases hs).frame.caller]
    cases a with
    | append u | insert u | close u | stop u | asyncSend u => exact ⟨insert u F, hupd u _⟩
    | _ => exact ⟨F, hF⟩

theorem exists_settled (hG : ∀ s t, G s (.asyncSend t)) (F : Finset ℕ) (s : Uvcpp)
    (hF : ∀ t, s.caller t ≠ .idle → t ∈ F) (hc : ∀ t, s.caller t ≠ .appended) :
    ∃ b, client.Run G s [] { s with asyncSignal := b, caller := fun _ => .idle } := by
  induction F using Finset.induction generalizing s with
  | empty =>
    have hidle : s.caller = fun _ => .idle :=
      funext fun t => not_not.mp fun ht => Finset.notMem_empty t (hF t ht)
    refine ⟨s.asyncSignal, ?_⟩
    rw [← hidle]
    exact .nil
  | insert u F _ ih =>
    have hrest : ∀ t ≠ u, s.caller t ≠ .idle → t ∈ F := fun t ht hne =>
      (Finset.mem_insert.mp (hF t hne)).resolve_left ht
    cases hu : s.caller u with
    | idle =>
      refine ih s (fun t ht => hrest t ?_ ht) hc
      rintro rfl
      exact ht hu
    | appended => exact (hc u hu).elim
    | inserted ev =>
      have hs : s.step (.asyncSend u) =
          some ({ s with asyncSignal := true, caller := update s.caller u .idle }, []) := by
        simp only [step, hu]
      have hF' : ∀ t, update s.caller u .idle t ≠ .idle → t ∈ F := by
        intro t ht
        rcases eq_or_ne t u with rfl | htu
        · simp at ht
        · exact hrest t htu (by simpa [htu] using ht)
      have hc' : ∀ t, update s.caller u .idle t ≠ .appended := by
        intro t
        rcases eq_or_ne t u with rfl | htu
        · simp
        · simpa [htu] using hc t
      obtain ⟨b, hb⟩ :=
        ih { s with asyncSignal := true, caller := update s.caller u .idle } hF' hc'
      exact ⟨b, .head (hG s u) hs hb⟩

/-- Where calls end, a state that is not served goes on to one in which bytes are stranded. -/
theorem NoStranding.served (hno : NoStranding G) (hG : LetsReturn G) (h : client.Reach G tr s)
    (hp : s.point = .polling ∨ s.point = .batch []) : s.Served := by
  intro hn
  by_contra hcon
  obtain ⟨ho, hahead⟩ := not_or.mp hcon
  obtain ⟨tr₁, h₁⟩ : ∃ tr₁, client.Reach G tr₁ { s with point := .polling } := by
    rcases hp with hp | hp
    · exact ⟨tr, by rwa [← hp]⟩
    · exact ⟨_, h.step (hG.callback s) (if_pos hp)⟩
  obtain ⟨F, hF⟩ := exists_callers h₁
  obtain ⟨b, hr⟩ := exists_settled hG.caller F _ hF fun t ht => hahead (.inr (.inl ⟨t, ht⟩))
  have hreach := h₁.trans hr
  have hq : Quiescent { s with point := .polling, asyncSignal := b, caller := fun _ => .idle } :=
    ⟨nofun, nofun, fun _ => ⟨nofun, nofun⟩⟩
  have hatt := hno _ _ hreach hq hn (Nat.pos_of_ne_zero ho)
  exact hahead (.inl ((filed_of_reach hreach).attended_iff.mp hatt))

/-- No bytes are stranded in the runs of `G` if their writes and connects move on, and, where
`G` lets calls end, only then. -/
theorem noStranding_iff (G : Uvcpp → Act → Prop) :
    (client.Always G movesOn → NoStranding G) ∧
      (LetsReturn G → NoStranding G → client.Always G movesOn) := by
  constructor
  · intro hm tr s h hq
    exact (hq.served_iff (filed_of_reach h)).mp (served_of_movesOn hm h)
  · intro hG hno tr s a s' es h hg hs
    have h' := h.step hg hs
    have hpoint := (step_cases hs).frame.point
    cases a with
    | process n =>
      intro rest hp
      cases rest with
      | cons ev rest => exact fun _ => .inr (.inr (.inr ⟨ev, rest, rfl⟩))
      | nil =>
        have hserved := hno.served hG h' (.inr (by simp [hpoint, nextPoint, hp, EventType.ends]))
        have hc : StepCases s (.process n) s' es := step_cases hs
        cases hc with
        | process ev rest _ hp' hn =>
          obtain ⟨rfl, rfl⟩ := List.cons.inj (LoopPoint.batch.inj (hp.symm.trans hp'))
          exact (served_write_iff hp hn).mp hserved [] hp
    | connectCb status =>
      have hc : StepCases s (.connectCb status) s' es := step_cases hs
      cases hc with
      | connectCb _ hp => exact served_connected_iff.mp (hno.served hG h' (.inl (hpoint.trans hp)))
    | _ => trivial

def onlyThread (u : ℕ) (_ : Uvcpp) : Act → Prop
  | .append t .. | .insert t | .close t | .stop t | .asyncSend t => t = u
  | _ => True

instance (u : ℕ) : DecidableRel (onlyThread u) := fun _ a =>
  match a with
  | .append t .. | .insert t | .close t | .stop t | .asyncSend t =>
    inferInstanceAs (Decidable (t = u))
  | .connect .. | .run | .setAutoReconnect _ | .asyncEnter | .swap | .process _ | .asyncReturn
  | .connectCb _ | .readCb _ | .closeCb _ | .asyncCloseCb | .leave => .isTrue trivial

theorem idle_of_onlyThread {t u : ℕ} (h : client.Reach (onlyThread u) tr s) (ht : t ≠ u) :
    s.caller t = .idle := by
  refine h.stateInvariant (I := fun s => s.caller t = .idle) ?_ ?_
  · rintro s ⟨blk, -, rfl⟩
    rfl
  · intro tr s a s' es _ hi hg hs
    rw [(step_cases hs).frame.caller]
    cases a with
    | append v | insert v | close v | stop v | asyncSend v =>
      obtain rfl : v = u := hg
      exact (update_of_ne ht ..).trans hi
    | _ => exact hi

/-- Two bytes of which `uv_try_write` takes one: the other stays with no event. -/
theorem not_noStranding : ¬ NoStranding (anyStep Uvcpp Act) := by
  intro h
  obtain ⟨tr, s, hr, hp⟩ := System.exists_run_of_exec (M := client) (G := onlyThread 1)
    (s := create ⟨1, List.replicate clientBufferLen 0⟩)
    [.connect "127.0.0.1" 50000 0, .run, .connectCb 0,
      .append 1 [104, 105] ⟨true, 1, fun _ => 0⟩ ⟨true, 2, fun _ => 0⟩, .insert 1,
      .asyncSend 1, .asyncEnter, .swap, .process 1, .asyncReturn]
    (p := fun s _ => decide (s.point = .polling ∧ s.caller 1 = .idle ∧ s.statusNormal = true ∧
      0 < s.sendOffset ∧ inOrder s.works = []))
    (by decide +kernel)
  obtain ⟨hpoll, hidle, hn, ho, hw⟩ := of_decide_eq_true hp
  have hreach : client.Reach (onlyThread 1) tr s := ⟨_, ⟨_, List.length_replicate, rfl⟩, hr⟩
  have hc : ∀ t, s.caller t = .idle := fun t => by
    rcases eq_or_ne t 1 with rfl | ht
    · exact hidle
    · exact idle_of_onlyThread hreach ht
  have hq : s.Quiescent :=
    ⟨by simp [hpoll], by simp [hpoll], fun t => by simp [hc t]⟩
  have hatt := h tr s (hreach.mono fun _ _ _ => trivial) hq hn ho
  exact ((filed_of_reach hreach).attended_iff.mp hatt) hw

end UvWrapper.Uvcpp
