import UvWrapper.Connect.Payloads
import UvWrapper.Loop.Passes

/-! # The order of writes

The handles of the loop are taken in the order of a deque that rotates, and their callbacks
run in the order of their registration. The writes of one thread keep their order as long
as each takes a handle that the loop thread visits after those of the writes before it.
-/

namespace UvWrapper.Uvconnect

open Function Memory Ownership Transition

variable {w : ℕ} {s s' s₁ : Uvconnect} {a : Act} {es tr : List Event} {t u r h : ℕ} {req : Req}

/-! ## Writes under way -/

/-- The records whose writes the loop thread has not executed, in the order in which it
will come to them. -/
def queued (s : Uvconnect) : List ℕ :=
  (s.body.bind recordOf).toList ++ s.threads.loop.upcoming recordOf

def bytesOf (s : Uvconnect) (r : ℕ) : List UInt8 := (s.send r).tsafebuf.contents

/-- The write that a thread is about to add to the loop. -/
def adding : Uvloop.Call Req → Option ℕ
  | .locking fill => fill.callback.bind recordOf
  | _ => none

def underway (s : Uvconnect) (t : ℕ) : List (List UInt8) :=
  match s.call t with
  | .obtained _ buf => [buf]
  | .requesting req => (recordOf req).toList.map s.bytesOf
  | _ => (adding (s.threads.call t)).toList.map s.bytesOf

/-- The payloads from the record taken to `uv_write`, where `t` is the only writer. -/
def flow (s : Uvconnect) (t : ℕ) : List (List UInt8) := s.queued.map s.bytesOf ++ s.underway t

def received : Event → Option (List UInt8)
  | .obtained _ _ buf => some buf
  | _ => none

/-- What `uv_write` is given. -/
def issued : Event → Option (List UInt8)
  | .uvWrite _ _ _ bytes => some bytes
  | _ => none

theorem received_eq_none {e : Event} (h : e.isRecord = false) : received e = none := by
  cases e <;> first | rfl | cases h

theorem issued_eq_none {e : Event} (h : e.isRecord = false) : issued e = none := by
  cases e <;> first | rfl | cases h

theorem passes_of_quiet (he : ∀ e ∈ es, e.isRecord = false) (hf : s'.flow t = s.flow t) :
    Passes received issued (s.flow t) es (s'.flow t) :=
  .of_eq (fun e hm => received_eq_none (he e hm)) (fun e hm => issued_eq_none (he e hm)) hf

/-! ## Order -/

def NoWrites (s : Uvconnect) : Prop :=
  (∀ o r, s.Holds o r → o = .libuv) ∧ ∀ t buf, s.call t ≠ .checked buf

def Event.isRefusal : Event → Bool
  | .returned _ (.tcpWrite _) .noErr => false
  | .returned _ (.tcpWrite _) _ => true
  | _ => false

/-- Every call of `wirteData` that has returned has returned true. -/
def Accepted (tr : List Event) : Prop := ∀ e ∈ tr, e.isRefusal = false

instance (tr : List Event) : Decidable (Accepted tr) := inferInstanceAs (Decidable (∀ e ∈ tr, _))

/-- Only `t` calls `wirteData`, and the loop thread fires the handles in the order of their
registration, pass by pass. -/
def inTurn (t : ℕ) (s : Uvconnect) : Act → Prop
  | .wirteData u _ => u = t
  | .turn b => s.threads.loop.inPasses b
  | _ => True

instance (t : ℕ) (s : Uvconnect) : DecidablePred (s.inTurn t) := fun a =>
  match a with
  | .wirteData u _ => inferInstanceAs (Decidable (u = t))
  | .turn b => inferInstanceAs (Decidable (s.threads.loop.inPasses b))
  | .registerConnect | .registerloopAndStream | .setEventHandler _ | .setIPAndAddr _ | .run _
  | .setRunning _ | .stop _ | .takeSend _ _ | .readmem _ _ _ | .request _ _ | .addReq _ | .lock _
  | .perform _ | .connectCb _ _ | .readCb _ _ | .writeCb _ _ | .closeCb _ => .isTrue trivial

/-- One writer on an established connection. -/
def orderly (w t : ℕ) (s : Uvconnect) (a : Act) : Prop :=
  assumed w s a ∧ s.bConnectSuccess = true ∧ s.inTurn t a

instance (w t : ℕ) (s : Uvconnect) (a : Act) : Decidable (orderly w t s a) :=
  inferInstanceAs (Decidable (_ ∧ _))

/-- In the runs of one writer whose steps satisfy `G` and in which every call succeeds, the
bytes of the `uv_write` calls are the payloads in the order of the calls. -/
def OrderKept (w t : ℕ) (G : Uvconnect → Act → Prop) : Prop :=
  ∀ tr₀ s₀ tr s, (connection w).Reach (assumed w) tr₀ s₀ → s₀.NoWrites →
    (connection w).Run (fun s a => orderly w t s a ∧ G s a) s₀ tr s → Accepted tr →
    tr.filterMap issued <+: tr.filterMap received ∧
      (s.NoWrites → tr.filterMap issued = tr.filterMap received)

/-- A write that takes a handle takes one after which, in the order of the loop thread, no
handle carries a write. -/
def takesLast (s : Uvconnect) : Act → Prop
  | .lock t => (adding (s.threads.call t)).isSome → ∀ h ∈ s.threads.loop.dAsync.head?,
      ∀ x ∈ Scan.beyond asyncHandles s.threads.loop.cursor h,
        s.threads.loop.carried recordOf x = none
  | _ => True

/-! ## One step -/

/-- A connection that succeeded has a stream, and the loop thread has entered the callback
of the request that it is to execute. -/
structure Seated (s : Uvconnect) : Prop where
  stream : s.bConnectSuccess = true → s.stream.isSome
  running : s.Entered

theorem PerformCases.seat {err : ℤ} (h : PerformCases s err req s' es) :
    s'.stream = s.stream ∧ (s'.bConnectSuccess = true → s.bConnectSuccess = true) := by
  cases h with
  | closeConnect => exact ⟨rfl, fun hc => absurd hc Bool.false_ne_true⟩
  | _ => exact ⟨rfl, id⟩

theorem ReadCases.seat {nread : ℤ} (h : ReadCases s nread s' es) :
    s'.stream = s.stream ∧ (s'.bConnectSuccess = true → s.bConnectSuccess = true) := by
  cases h with
  | lost => exact ⟨rfl, nofun⟩
  | _ => exact ⟨rfl, id⟩

theorem ClosedCases.seat (hc : ClosedCases s h s' es) :
    s'.stream = s.stream ∧ s'.bConnectSuccess = s.bConnectSuccess := by
  cases hc <;> exact ⟨rfl, rfl⟩

theorem begin_seat {f : Api} {o : Option Req} (h : s.begin f = (s₁, o)) :
    s₁.stream = s.stream ∧ s₁.bConnectSuccess = s.bConnectSuccess := by
  cases f <;> obtain ⟨rfl, -⟩ := Prod.mk.inj h <;> exact ⟨rfl, rfl⟩

theorem Seated.step (hi : s.Seated) (hs : s.step w a = some (s', es)) : s'.Seated := by
  refine ⟨?_, hi.running.step hs⟩
  cases step_cases hs with
  | registerloopAndStream | connectCb => exact fun _ => rfl
  | obtained t ma buf r s₁ hc ht =>
    obtain ⟨b, -, -, -, rfl⟩ | ⟨rest, -, rfl⟩ := takeSend_cases ht <;> exact hi.stream
  | requesting t f s₁ req hidle hb =>
    obtain ⟨hst, hc⟩ := begin_seat hb
    intro h
    rw [hst]
    exact hi.stream (hc.symm.trans h)
  | perform req err hb =>
    obtain ⟨hst, hc⟩ := (perform_cases { s with body := none } req err).seat
    intro h
    rw [hst]
    exact hi.stream (hc h)
  | readCb h nread =>
    obtain ⟨hst, hc⟩ := (readDone_cases s nread).seat
    intro h
    rw [hst]
    exact hi.stream (hc h)
  | writeCb r status =>
    unfold written
    split <;> exact hi.stream
  | closeCb h =>
    obtain ⟨hst, hc⟩ := (closed_cases s h).seat
    intro h
    rw [hst]
    exact hi.stream (hc.symm.trans h)
  | _ => exact hi.stream

/-! ### The flow -/

theorem flow_congr (hb : s'.body = s.body)
    (hl : s'.threads.loop.upcoming recordOf = s.threads.loop.upcoming recordOf)
    (hbytes : s'.bytesOf = s.bytesOf) (hu : s'.underway t = s.underway t) :
    s'.flow t = s.flow t := by
  rw [flow, queued, hb, hl, hbytes, hu, flow, queued]

theorem Kept.bytesOf (h : Kept s s') : s'.bytesOf = s.bytesOf :=
  funext fun r => by rw [Uvconnect.bytesOf, h.tsafebuf, Uvconnect.bytesOf]

theorem Apart.flow (h : Apart s s') : s'.flow t = s.flow t := by
  apply flow_congr h.body (by rw [h.threads]) h.bytesOf
  simp only [underway, h.call, h.threads, h.bytesOf]

theorem holds_of_queued (h : r ∈ s.queued) :
    ∃ o, s.Holds o r ∧ (∀ u, o ≠ .caller u) ∧ o ≠ .libuv := by
  rcases List.mem_append.mp h with h | h
  · obtain ⟨req, hb, hreq⟩ := Option.bind_eq_some_iff.mp (Option.mem_toList.mp h)
    obtain rfl := recordOf_eq_some.mp hreq
    exact ⟨.body, hb, nofun, nofun⟩
  · obtain ⟨x, -, hx⟩ := List.mem_filterMap.mp h
    obtain ⟨req, hb, hreq⟩ := Option.bind_eq_some_iff.mp hx
    obtain rfl := recordOf_eq_some.mp hreq
    exact ⟨.handle x, hb, nofun, nofun⟩

theorem adding_eq_some {c : Uvloop.Call Req} (h : adding c = some r) :
    ∃ e, c = .locking (.addReq e (some (.tcpWrite r))) := by
  cases c with
  | locking fill =>
    obtain ⟨req, hcb, hreq⟩ := Option.bind_eq_some_iff.mp h
    obtain rfl := recordOf_eq_some.mp hreq
    obtain ⟨e, rfl⟩ := Uvloop.Fill.of_callback hcb
    exact ⟨e, rfl⟩
  | idle | starting => cases h

theorem RecordInv.not_queued (hi : RecordInv w tr s) (h : s.Holds (.caller t) r) :
    r ∉ s.queued := by
  intro hq
  obtain ⟨o, ho, hne, -⟩ := holds_of_queued hq
  exact hne t (hi.exclusive _ _ _ ho h)

theorem underway_eq_nil (hc : s.call t = .idle ∨ ∃ buf, s.call t = .checked buf)
    (ht : s.threads.call t = .idle) : s.underway t = [] := by
  obtain hc | ⟨buf, hc⟩ := hc <;> simp [underway, hc, ht, adding]

theorem flow_obtained (hi : RecordInv w tr s) (hl : s.LoopInv) {ma : Answer} {buf : List UInt8}
    (hc : s.call t = .checked buf) (ht : s.takeSend ma = some (r, s₁)) :
    Passes received issued (s.flow t) [.obtained t r buf]
      (flow { s₁ with call := update s.call t (.obtained r buf) } t) := by
  have hbound := hi.checked t buf hc
  have hob := hi.obtains (Nat.lt_of_le_of_lt (Nat.le_add_left ..) hbound) ht
  obtain ⟨hth, -, hbody, -⟩ := takeSend_threads ht
  have hnil := underway_eq_nil (.inr ⟨buf, hc⟩) (hl.idle_of_call (by rw [hc]; nofun))
  have hbytes : s.queued.map s₁.bytesOf = s.queued.map s.bytesOf := by
    apply List.map_congr_left
    intro x hx
    obtain ⟨o, ho, -⟩ := holds_of_queued hx
    have hxr : x ≠ r := fun he => hob.unused (he ▸ hi.held o x ho)
    rw [bytesOf, hob.others x hxr, bytesOf]
  have hq : queued { s₁ with call := update s.call t (.obtained r buf) } = s.queued := by
    simp only [queued, hth, hbody]
  have hu : underway { s₁ with call := update s.call t (.obtained r buf) } t = [buf] := by
    simp [underway]
  rw [Passes, flow, flow, hnil, hq, hu]
  change s.queued.map s.bytesOf ++ [] ++ [buf] = [] ++ (s.queued.map s₁.bytesOf ++ [buf])
  rw [hbytes, List.append_nil, List.nil_append]

theorem flow_filled (hi : RecordInv w tr s) {ma re : Answer} {buf : List UInt8} {b : Safebuffer}
    {ok : Bool} (hok : re.ok = true) (hc : s.call t = .obtained r buf)
    (h : (s.send r).tsafebuf.readmem w buf ma re = some (b, ok)) :
    flow { s with
      send := update s.send r { s.send r with tsafebuf := b }
      call := update s.call t (.requesting (.tcpWrite r)) } t = s.flow t := by
  have hheld : s.Holds (.caller t) r := .inl ⟨buf, hc⟩
  have hpay := (hi.obtained t r buf hc).1
  have hfilled := (hi.fill hok hc h).content (.caller t) r (.inr (.inl (update_self ..)))
  rw [latest_append_of_none (by simp [payloadOf]), hpay] at hfilled
  have hbuf : b.contents = buf := by
    rcases hfilled with ⟨u, p, he, hu⟩ | he
    · obtain rfl := Holder.caller.inj he
      simp at hu
    · simpa using (Option.some.inj he).symm
  have hbytes : s.queued.map (bytesOf { s with
      send := update s.send r { s.send r with tsafebuf := b }
      call := update s.call t (.requesting (.tcpWrite r)) }) = s.queued.map s.bytesOf := by
    apply List.map_congr_left
    intro x hx
    obtain ⟨o, ho, hne, -⟩ := holds_of_queued hx
    have hxr : x ≠ r := fun he => hne t (hi.exclusive _ _ _ (he ▸ ho) hheld)
    simp [bytesOf, hxr]
  rw [flow, flow]
  apply congrArg₂ _ hbytes
  simp [underway, hc, recordOf, bytesOf, hbuf]

theorem underway_of_ne {th : Uvloop.Threads Req} (hut : th.call t = s.threads.call t) :
    underway { s with threads := th } t = s.underway t := by
  rw [underway, underway, hut]
  rfl

theorem adding_of_loopAct {b : Uvloop.Act Req} {th : Uvloop.Threads Req}
    {les : List (Uvloop.Event Req)} (hb : LoopAct s a b)
    (ht : s.threads.step b = some (th, les)) (htb : b.thread = some t) :
    adding (s.threads.call t) = none ∧ adding (th.call t) = none := by
  cases hb with
  | run u hidle =>
    obtain rfl := Option.some.inj htb
    simp only [Uvloop.Threads.step, hidle.2] at ht
    obtain ⟨l, -, he⟩ := Option.map_eq_some_iff.mp ht
    obtain ⟨rfl, -⟩ := Prod.mk.inj he
    simp [hidle.2, adding]
  | setRunning u =>
    obtain rfl := Option.some.inj htb
    simp only [Uvloop.Threads.step] at ht
    split at ht
    · next hc =>
      obtain ⟨rfl, -⟩ := Prod.mk.inj (Option.some.inj ht)
      simp [hc, adding]
    · contradiction
  | stop u hidle =>
    obtain rfl := Option.some.inj htb
    simp only [Uvloop.Threads.step, hidle.2] at ht
    split at ht <;> obtain ⟨rfl, -⟩ := Prod.mk.inj (Option.some.inj ht) <;>
      simp [hidle.2, adding, Uvloop.Fill.callback]

theorem flow_loop {b : Uvloop.Act Req} {th : Uvloop.Threads Req}
    {les : List (Uvloop.Event Req)} (hb : LoopAct s a b)
    (ht : s.threads.step b = some (th, les)) : flow { s with threads := th } t = s.flow t := by
  have hu : underway { s with threads := th } t = s.underway t := by
    by_cases htb : b.thread = some t
    · obtain ⟨hn, hn'⟩ := adding_of_loopAct hb ht htb
      simp only [underway, hn, hn']
      rfl
    · exact underway_of_ne (Uvloop.Threads.call_of_ne ht htb)
  refine flow_congr rfl (Uvloop.Threads.upcoming_of_quiet ht ?_ ?_) rfl hu <;> cases hb <;> nofun

theorem flow_addReq (hl : s.LoopInv) {th : Uvloop.Threads Req} {les : List (Uvloop.Event Req)}
    (hc : s.call u = .requesting req)
    (ht : s.threads.step (.call u (.addReq req.eType (some req))) = some (th, les))
    (hacc : Accepted (if s.threads.loop.bRunning then [] else [.returned u req .stop])) :
    flow { s with threads := th, call := update s.call u .idle } t = s.flow t := by
  refine flow_congr rfl (Uvloop.Threads.upcoming_of_quiet ht nofun nofun) rfl ?_
  rcases eq_or_ne t u with rfl | htu
  · have hidle := hl.idle_of_call (t := t) (by rw [hc]; nofun)
    simp only [Uvloop.Threads.step, hidle] at ht
    split at ht
    · obtain ⟨rfl, -⟩ := Prod.mk.inj (Option.some.inj ht)
      have hcb : (Uvloop.Fill.addReq req.eType (some req)).callback = some req :=
        if_pos (hl.types t req hc)
      simp only [underway, hc, update_self, adding, hcb, Option.bind_some]
      rfl
    · next hrun =>
      obtain ⟨rfl, -⟩ := Prod.mk.inj (Option.some.inj ht)
      have hother : recordOf req = none := by
        cases hr : recordOf req with
        | none => rfl
        | some r =>
          obtain rfl := recordOf_eq_some.mp hr
          cases hacc (.returned t (.tcpWrite r) .stop) (by simp [hrun])
      simp [underway, hc, hidle, adding, hother]
  · have hth := Uvloop.Threads.call_of_ne ht
      (by simpa [Uvloop.Act.thread] using Ne.symm htu : _ ≠ some t)
    simp only [underway, update_of_ne htu, hth]
    rfl

theorem queued_lock_iff (hi : RecordInv w tr s) (hl : s.LoopInv) {th : Uvloop.Threads Req}
    {les : List (Uvloop.Event Req)} (ht : s.threads.step (.lock u) = some (th, les))
    (hadd : adding (s.threads.call u) = some r) (hacc : Accepted (s.lockResult u)) :
    queued { s with threads := th } = s.queued ++ [r] ↔ s.takesLast (.lock u) := by
  obtain ⟨e, hc⟩ := adding_eq_some hadd
  obtain ⟨fill, hfill, -, hsub⟩ := Uvloop.Threads.lock_cases ht
  obtain rfl := Uvloop.Call.locking.inj (hfill.symm.trans hc)
  have hnew := hi.not_queued (t := u) (.inr (.inr ⟨e, hfill⟩))
  rw [queued, List.mem_append, not_or] at hnew
  have hrec : (Uvloop.Fill.addReq e (some (.tcpWrite r))).callback.bind recordOf = some r := by
    simpa [hfill, adding] using hadd
  rcases Uvloop.submit_cases s.threads.loop (.addReq e (some (.tcpWrite r))) with
    ⟨hempty, -⟩ | ⟨h, l', htake, he⟩
  · cases hacc (.returned u (.tcpWrite r) .busy) (by simp [lockResult, hfill, hempty])
  · obtain rfl : th.loop = l' := (Prod.mk.inj (hsub.symm.trans he)).1
    rw [queued, queued, List.append_assoc, List.append_cancel_left_eq,
      hl.threads.loop.upcoming_of_take_iff htake hrec hnew.2]
    simp [takesLast, hadd, (hl.threads.loop.lt_of_take htake).2]

theorem flow_lock (hi : RecordInv w tr s) (hl : s.LoopInv) {th : Uvloop.Threads Req}
    {les : List (Uvloop.Event Req)} (ht : s.threads.step (.lock u) = some (th, les))
    (hwriter : ∀ u ≠ t, ∀ r, ¬ s.Holds (.caller u) r) (hlast : s.takesLast (.lock u))
    (hacc : Accepted (s.lockResult u)) : flow { s with threads := th } t = s.flow t := by
  obtain ⟨fill, hfill, hcall, hsub⟩ := Uvloop.Threads.lock_cases ht
  have hidle : s.call u = .idle := (hl.single u).resolve_right (by rw [hfill]; nofun)
  cases hrec : adding (s.threads.call u) with
  | none =>
    have hu : underway { s with threads := th } t = s.underway t := by
      rcases eq_or_ne t u with rfl | htu
      · simp only [underway, hidle, hrec, hcall, update_self]
        rfl
      · exact underway_of_ne (by rw [hcall, update_of_ne htu])
    rw [hfill] at hrec
    refine flow_congr rfl ?_ rfl hu
    rcases Uvloop.submit_cases s.threads.loop fill with ⟨-, he⟩ | ⟨h, l', htake, he⟩
    · exact congrArg (Uvloop.upcoming recordOf) (Prod.mk.inj (hsub.symm.trans he)).1
    · rw [← hl.threads.loop.upcoming_of_other htake hrec]
      exact congrArg (Uvloop.upcoming recordOf) (Prod.mk.inj (hsub.symm.trans he)).1
  | some r =>
    have hq := (queued_lock_iff hi hl ht hrec hacc).mpr hlast
    obtain ⟨e, hc⟩ := adding_eq_some hrec
    obtain rfl : u = t := by
      by_contra hne
      exact hwriter u hne r (.inr (.inr ⟨e, hc⟩))
    have hu : underway { s with threads := th } u = [] :=
      underway_eq_nil (.inl hidle) (by rw [hcall, update_self])
    have hadd : s.underway u = [s.bytesOf r] := by simp [underway, hidle, hrec]
    rw [flow, hq, hu, flow, hadd, List.map_append, List.append_nil]
    rfl

theorem flow_turn (hl : s.LoopInv) (hseat : s.Seated) {b : Uvloop.Turn}
    {th : Uvloop.Threads Req} {les : List (Uvloop.Event Req)}
    (ht : s.threads.step (.turn b) = some (th, les)) (hp : s.threads.loop.inPasses b) :
    flow { s with threads := th, body := s.nextBody b th.loop.position } t = s.flow t := by
  obtain ⟨hcall, hturn⟩ := Uvloop.Threads.turn_cases ht
  have hq : queued { s with threads := th, body := s.nextBody b th.loop.position } = s.queued := by
    by_cases hb : ∃ h, b = .fire h
    · obtain ⟨h, rfl⟩ := hb
      have hbody := hseat.running.body_eq_none (by simp [hl.threads.loop.polling_of_fire hturn])
      rw [queued, queued, hbody, hl.threads.loop.upcoming_of_fire hturn hp]
      simp only [nextBody_fire hl hturn]
      rfl
    · have hne : ∀ h, b ≠ .fire h := fun h he => hb ⟨h, he⟩
      rw [queued, queued]
      simp only [nextBody_of_ne hne, hl.threads.loop.upcoming_of_turn hturn hne]
  have hu : underway { s with threads := th, body := s.nextBody b th.loop.position } t =
      s.underway t := by
    simp only [underway, hcall]
    rfl
  rw [flow, hq, hu]
  rfl

theorem flow_perform (hi : RecordInv w tr s) (hseat : s.Seated) {err : ℤ}
    (hb : s.body = some req) (hc : s.bConnectSuccess = true)
    (herr : ∀ r, s.body = some (.tcpWrite r) → err = 0)
    (hfit : ∀ p ∈ s.flow t, p.length < 2 ^ 32) :
    Passes received issued (s.flow t) ({ s with body := none }.perform req err).2
      (({ s with body := none }.perform req err).1.flow t) := by
  cases hr : recordOf req with
  | none =>
    have hflow : flow { s with body := none } t = s.flow t := by
      simp only [flow, queued, hb, Option.bind_some, hr]
      rfl
    rcases (perform_cases { s with body := none } req err).apart with
      ⟨hap, he⟩ | ⟨r, h, rfl, -⟩
    · exact passes_of_quiet he (hap.flow.trans hflow)
    · cases hr
  | some r =>
    obtain rfl := recordOf_eq_some.mp hr
    obtain rfl := herr r hb
    obtain ⟨h, hst⟩ := Option.isSome_iff_exists.mp (hseat.stream hc)
    have hheld : s.Holds .body r := hb
    have hflow : s.flow t = s.bytesOf r :: flow { s with body := none } t := by
      simp only [flow, queued, hb, Option.bind_some, hr]
      rfl
    have hfit := hfit (s.bytesOf r) (by rw [hflow]; exact List.mem_cons_self)
    have hwhole : (s.send r).tsafebuf.covered (sendBuf (s.send r)) = s.bytesOf r := by
      rw [covered_sendBuf (hi.buffers r (hi.lt_created hheld))]
      exact take_uint_eq_iff.mpr hfit
    have he : { s with body := none }.perform (.tcpWrite r) 0 = ({ s with
        body := none
        send := update s.send r { s.send r with tbuf := sendBuf (s.send r) }
        writing := update s.writing r (some (sendBuf (s.send r))) },
        [.uvWrite r h (s.tcp h) (s.bytesOf r)]) := by
      simp [perform, tcpWrite, hc, hst, hwhole]
    have hbytes : bytesOf { s with
        body := none
        send := update s.send r { s.send r with tbuf := sendBuf (s.send r) }
        writing := update s.writing r (some (sendBuf (s.send r))) } = s.bytesOf := by
      ext x : 1
      exact Update.apply_update_of_eq (g := fun st : StSend => st.tsafebuf.contents) rfl
    have hrest : flow { s with
        body := none
        send := update s.send r { s.send r with tbuf := sendBuf (s.send r) }
        writing := update s.writing r (some (sendBuf (s.send r))) } t =
        flow { s with body := none } t := by
      refine flow_congr rfl rfl hbytes ?_
      simp only [underway, hbytes]
      rfl
    rw [he, Passes, hrest, hflow]
    simp [received, issued]

theorem flow_closed (hl : s.LoopInv) (h : ℕ) :
    Passes received issued (s.flow t) (s.closed h).2 ((s.closed h).1.flow t) := by
  rcases (closed_cases s h).apart with ⟨hap, he⟩ | ⟨loop, les, s₁, hap, hsub, hs', hes⟩
  · exact passes_of_quiet he hap.flow
  · rw [hs', hes]
    apply passes_of_quiet (isRecord_loop les)
    rw [← hap.flow]
    refine flow_congr rfl ?_ rfl ?_
    · rw [hap.threads]
      rcases Uvloop.submit_cases s.threads.loop (.addReq .tcpConnect (some .connect)) with
        ⟨-, he'⟩ | ⟨x, l', htake, he'⟩
      · exact congrArg (Uvloop.upcoming recordOf) (Prod.mk.inj (hsub.symm.trans he')).1
      · rw [← hl.threads.loop.upcoming_of_other htake rfl]
        exact congrArg (Uvloop.upcoming recordOf) (Prod.mk.inj (hsub.symm.trans he')).1
    · simp only [underway, hap.threads]
      rfl

theorem flow_written (s : Uvconnect) (r : ℕ) (status : ℤ) :
    Passes received issued (s.flow t) (s.written r status).2 ((s.written r status).1.flow t) := by
  have hn := notify_isRecord s .write status
  unfold written
  split
  · exact .of_eq (List.forall_mem_cons.mpr ⟨rfl, fun e he => received_eq_none (hn e he)⟩)
      (List.forall_mem_cons.mpr ⟨rfl, fun e he => issued_eq_none (hn e he)⟩) rfl
  · exact .of_eq (by simp [crash, received]) (by simp [crash, issued]) rfl

def OnlyWriter (t : ℕ) (s : Uvconnect) : Prop :=
  ∀ u ≠ t, (∀ buf, s.call u ≠ .checked buf) ∧ ∀ r, ¬ s.Holds (.caller u) r

theorem OnlyWriter.step (h : s.OnlyWriter t) (hl : s.LoopInv) (hg : assumed w s a)
    (hp : s.inTurn t a) (hs : s.step w a = some (s', es)) : s'.OnlyWriter t := by
  have hcalls : CallsKept s a s' → ∀ u ≠ t, ∀ buf, s'.call u ≠ .checked buf := by
    intro hk u hu buf hc
    rcases hk.checked u buf hc with hc | rfl
    · exact (h u hu).1 buf hc
    · exact hu hp
  cases hl.move hg.writesAccepted hs with
  | keep _ _ _ _ hk hsub =>
    exact fun u hu => ⟨hcalls hk u hu, fun r hr => (h u hu).2 r (hsub _ r hr)⟩
  | give _ _ _ i j r _ hk _ _ hj hsub =>
    refine fun u hu => ⟨hcalls hk u hu, fun x hx => ?_⟩
    rcases hsub (.caller u) x hx with ⟨he, -⟩ | ⟨hx, -⟩
    · exact hj u he.symm
    · exact (h u hu).2 x hx
  | obtain v ma buf r s₁ hc ht =>
    obtain ⟨hth, -⟩ := takeSend_threads ht
    intro u hu
    have huv : u ≠ v := by
      rintro rfl
      exact (h u hu).1 buf hc
    exact ⟨by simpa [huv] using (h u hu).1, by simpa [Holds, huv, hth] using (h u hu).2⟩
  | fill v ma re r buf b ok hc =>
    intro u hu
    have huv : u ≠ v := by
      rintro rfl
      exact (h u hu).2 r (.inl ⟨buf, hc⟩)
    exact ⟨by simpa [huv] using (h u hu).1, by simpa [Holds, huv] using (h u hu).2⟩
  | write => exact h
  | complete r status =>
    unfold written
    split <;> exact h

/-- What every step of one writer does: a payload comes in, the payload that has been under
way longest goes out, or nothing of either. -/
theorem flow_step (hi : RecordInv w tr s) (hl : s.LoopInv) (hseat : s.Seated)
    (hone : s.OnlyWriter t) (hfit : ∀ p ∈ s.flow t, p.length < 2 ^ 32) (hg : orderly w t s a)
    (hlast : s.takesLast a) (hacc : Accepted es) (hs : s.step w a = some (s', es)) :
    Passes received issued (s.flow t) es (s'.flow t) := by
  obtain ⟨hassumed, hc, hp⟩ := hg
  have hacc' : ∀ {es es' : List Event}, Accepted (es ++ es') → Accepted es' :=
    fun h e he => h e (List.mem_append_right _ he)
  cases step_cases hs with
  | registerConnect | registerloopAndStream | setEventHandler | setIPAndAddr =>
    exact passes_of_quiet (by simp) rfl
  | obtainFault | fillFault | addReqFault | rejected | requestRejected =>
    exact passes_of_quiet (by simp [Event.isRecord]) rfl
  | loop a b th les hb ht => exact passes_of_quiet (isRecord_loop les) (flow_loop hb ht)
  | checked u buf hidle =>
    refine passes_of_quiet (by simp) (flow_congr rfl rfl rfl ?_)
    rcases eq_or_ne t u with rfl | htu
    · rw [underway_eq_nil (.inl hidle.1) hidle.2]
      exact underway_eq_nil (.inr ⟨buf, update_self ..⟩) hidle.2
    · simp only [underway, update_of_ne htu]
      rfl
  | obtained u ma buf r s₁ hcu ht =>
    obtain rfl : u = t := by
      by_contra hne
      exact (hone u hne).1 buf hcu
    exact flow_obtained hi hl hcu ht
  | filled u ma re r buf b ok hcu hr =>
    obtain rfl : u = t := by
      by_contra hne
      exact (hone u hne).2 r (.inl ⟨buf, hcu⟩)
    exact passes_of_quiet (by simp [Event.isRecord]) (flow_filled hi hassumed.2 hcu hr)
  | requesting u f s₁ req hidle hb =>
    obtain ⟨hap, hreq, -⟩ := begin_cases hb
    have hnone : recordOf req = none := by
      cases hr : recordOf req with
      | none => rfl
      | some r => exact (hreq r (recordOf_eq_some.mp hr)).elim
    apply passes_of_quiet (by simp)
    rw [← hap.flow]
    refine flow_congr rfl rfl rfl ?_
    rcases eq_or_ne t u with rfl | htu
    · simp [underway, hap.call, hap.threads, hidle.1, hidle.2, adding, hnone]
    · simp only [underway, hap.call, update_of_ne htu]
      rfl
  | addReq u req th les hcu ht =>
    refine passes_of_quiet (isRecord_append (isRecord_loop les) ?_)
      (flow_addReq hl hcu ht (hacc' hacc))
    split <;> simp [Event.isRecord]
  | lock u th les ht =>
    exact passes_of_quiet (isRecord_append (isRecord_loop les) (lockResult_isRecord s u))
      (flow_lock hi hl ht (fun u hu => (hone u hu).2) hlast (hacc' hacc))
  | turn b th les ht => exact passes_of_quiet (isRecord_loop les) (flow_turn hl hseat ht hp)
  | perform req err hb => exact flow_perform hi hseat hb hc hassumed hfit
  | connectCb h status =>
    exact passes_of_quiet (apart_connected s h status).2 (apart_connected s h status).1.flow
  | readCb h nread =>
    obtain ⟨hap, he⟩ := (readDone_cases s nread).apart
    exact passes_of_quiet he hap.flow
  | writeCb r status => exact flow_written s r status
  | closeCb h => exact flow_closed hl h

/-! ## Whole runs -/

theorem seated_of_reach (h : (connection w).Reach (assumed w) tr s) : s.Seated := by
  refine h.stateInvariant ?_ fun tr s a s' es _ hi _ hs => hi.step hs
  rintro s ⟨garbage, send, rfl⟩
  exact ⟨nofun, nofun⟩

theorem holds_of_underway (h : s.underway t ≠ []) : ∃ r, s.Holds (.caller t) r := by
  unfold underway at h
  split at h
  · next x buf hc => exact ⟨x, .inl ⟨buf, hc⟩⟩
  · next req hc =>
    cases hr : recordOf req with
    | none => simp [hr] at h
    | some r => exact ⟨r, .inr (.inl (by rw [hc, recordOf_eq_some.mp hr]))⟩
  · cases hr : adding (s.threads.call t) with
    | none => simp [hr] at h
    | some r => exact ⟨r, .inr (.inr (adding_eq_some hr))⟩

theorem NoWrites.flow (h : s.NoWrites) : s.flow t = [] := by
  have hq : s.queued = [] := by
    apply List.eq_nil_iff_forall_not_mem.mpr
    intro r hr
    obtain ⟨o, ho, -, hne⟩ := holds_of_queued hr
    exact hne (h.1 o r ho)
  have hu : s.underway t = [] := by
    by_contra hne
    obtain ⟨r, hr⟩ := holds_of_underway hne
    cases h.1 _ r hr
  rw [Uvconnect.flow, hq, hu]
  rfl

theorem obtained_of_flow {p : List UInt8} (h : Passes received issued [] tr (s.flow t))
    (hp : p ∈ s.flow t) : ∃ u r, .obtained u r p ∈ tr := by
  have hmem : p ∈ tr.filterMap received := by
    rw [show tr.filterMap received = tr.filterMap issued ++ s.flow t from h]
    exact List.mem_append_right _ hp
  obtain ⟨e, he, hep⟩ := List.mem_filterMap.mp hmem
  cases e with
  | obtained u r buf =>
    obtain rfl := Option.some.inj hep
    exact ⟨u, r, he⟩
  | _ => cases hep

theorem orderKept (w t : ℕ) : OrderKept w t fun s a => s.takesLast a ∧ fitsUint s a := by
  intro tr₀ s₀ tr s h₀ hno h hacc
  have hgw : ∀ s a, orderly w t s a ∧ s.takesLast a ∧ fitsUint s a → assumed w s a :=
    fun _ _ hg => hg.1.1
  have hflow : s.OnlyWriter t ∧ (Accepted tr → Passes received issued [] tr (s.flow t)) := by
    refine h.induct (I := fun tr s => s.OnlyWriter t ∧
      (Accepted tr → Passes received issued [] tr (s.flow t))) ?_ ?_
    · refine ⟨fun u _ => ⟨hno.2 u, fun r hr => ?_⟩, fun _ => ?_⟩
      · cases hno.1 _ r hr
      · rw [hno.flow]
        rfl
    · rintro tr s a s' es hr ⟨hone, hpass⟩ ⟨hg, hlast, -⟩ hs
      have hreach := h₀.trans (hr.mono hgw)
      obtain ⟨hl, hi⟩ := recordInv_of_reach hreach
      refine ⟨hone.step hl hg.1 hg.2.2 hs, fun hacc => ?_⟩
      have hacc₁ : Accepted tr := fun e he => hacc e (List.mem_append_left _ he)
      have hacc₂ : Accepted es := fun e he => hacc e (List.mem_append_right _ he)
      have hfit := (payloads_of_run (Q := fun p => p.length < 2 ^ 32) hgw
        (fun _ _ _ hg => hg.2.2) h₀ hno.2 hr).2
      refine (hpass hacc₁).trans (flow_step hi hl (seated_of_reach hreach) hone
        (fun p hp => ?_) hg hlast hacc₂ hs)
      obtain ⟨u, r, he⟩ := obtained_of_flow (hpass hacc₁) hp
      exact hfit u r p he
  have hpass : tr.filterMap received = tr.filterMap issued ++ s.flow t := hflow.2 hacc
  exact ⟨⟨s.flow t, hpass.symm⟩, fun hend => by rw [hpass, hend.flow, List.append_nil]⟩

/-- The writes of one thread keep their order as long as each takes a handle that comes
after those that carry the writes before it, and every length fits an `unsigned int`. In
any run a write that takes another handle comes before one that was added earlier. -/
theorem orderKept_of_takesLast (w t : ℕ) :
    (OrderKept w t fun s a => s.takesLast a ∧ fitsUint s a) ∧
      ∀ tr s, (connection w).Reach (assumed w) tr s → ∀ u r s' es,
        s.step w (.lock u) = some (s', es) → adding (s.threads.call u) = some r →
        Accepted es → (s'.queued = s.queued ++ [r] ↔ s.takesLast (.lock u)) := by
  refine ⟨orderKept w t, fun tr s h u r s' es hs hadd hacc => ?_⟩
  obtain ⟨hl, hi⟩ := recordInv_of_reach h
  cases step_cases hs with
  | loop _ _ _ _ hb => cases hb
  | lock _ th les ht =>
    exact queued_lock_iff hi hl ht hadd fun e he => hacc e (List.mem_append_right _ he)

def writeCall (b : UInt8) : List Act :=
  let ok : Answer := ⟨true, 1, fun _ => 0⟩
  [.wirteData 1 [b], .takeSend 1 ok, .readmem 1 ok ok, .addReq 1, .lock 1]

def writeTurn (h : ℕ) : List Act :=
  [.turn (.fire h), .perform 0, .turn .tcbReturn, .turn .recycle]

/-- Four writes are executed one by one. The fifth takes the last handle and the sixth the
first, which the next pass visits first. -/
theorem not_orderKept : ¬ OrderKept 64 1 fun _ _ => True := by
  intro hkept
  obtain ⟨tr, s, hr, hp⟩ := System.exists_run_of_exec (M := connection 64)
    (G := fun s a => orderly 64 1 s a ∧ True) (s := accepted)
    ((List.range 4).flatMap (fun h => writeCall h.toUInt8 ++ writeTurn h) ++
      [.turn .skip, .turn .newPass] ++ writeCall 4 ++ writeCall 5 ++ writeTurn 0)
    (p := fun _ tr => decide (Accepted tr ∧
      ¬ tr.filterMap issued <+: tr.filterMap received)) (by decide +kernel)
  obtain ⟨hacc, hne⟩ := of_decide_eq_true hp
  have hno : accepted.NoWrites := by
    refine ⟨fun o r ho => ?_, nofun⟩
    cases o with
    | caller u => simp [Holds, accepted, create] at ho
    | libuv => rfl
    | handle | body => cases ho
  exact hne (hkept [] accepted tr s reach_accepted hno hr hacc).1

end UvWrapper.Uvconnect
