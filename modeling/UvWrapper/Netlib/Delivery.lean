import UvWrapper.Netlib.Count
import Mathlib.Data.List.Pairwise

/-! # What becomes of an asynchronous send

Each payload that `net_AsyncSend` accepts is written by the `async_cb` of its handle, once and as it
was given. As no handle comes back, the payloads are five at most in the life of the object.
-/

namespace UvWrapper.Netlibuv

open Function Memory Ownership Transition

variable {w : ℕ} {s s' s₁ : Netlibuv} {a : Act} {es tr : List Event} {t r i : ℕ}
  {p : List UInt8} {ma re : Answer}

/-! ## What `async_cb` writes -/

/-- Where the loop thread is: in no `async_cb`; in that of the handle `i`, before `net_Send` has a
record or after the write; with the record `r`. -/
inductive Cursor
  | outside
  | inside (i : ℕ)
  | sending (i r : ℕ)
  deriving DecidableEq

def Cursor.next : Cursor → Event → Cursor
  | _, .asyncEntered i => .inside i
  | _, .asyncReturned _ => .outside
  | .inside i, .obtained t r _ => if t = loopThread then .sending i r else .inside i
  | .sending i r, .uvWrite x true _ => if x = r then .inside i else .sending i r
  | c, _ => c

/-- The handle and the bytes of a write that `async_cb` makes. -/
def Cursor.write : Cursor → Event → Option (ℕ × List UInt8)
  | .sending i r, .uvWrite x true bytes => if x = r then some (i, bytes) else none
  | _, _ => none

def cursor (tr : List Event) : Cursor := tr.foldl Cursor.next .outside

def asyncWrites (tr : List Event) : List (ℕ × List UInt8) :=
  gathered Cursor.next Cursor.write .outside tr

def Event.acceptedOn : Event → Option ℕ
  | .asyncAccepted i _ => some i
  | _ => none

def Event.isAsync : Event → Bool
  | .asyncAccepted _ _ | .asyncEntered _ | .asyncReturned _ => true
  | _ => false

/-- What has become of the payloads that `net_AsyncSend` has accepted. -/
structure Delivered (tr : List Event) (s : Netlibuv) : Prop where
  /-- The handles are taken one after the other, each once. -/
  accepted : tr.filterMap Event.acceptedOn ++ s.dAsyncSend = List.range asyncHandleNum
  /-- Of each handle one payload is written at most, which is the one that was accepted on it. -/
  once : ((asyncWrites tr).map Prod.fst).Nodup
  intact : ∀ i p, (i, p) ∈ asyncWrites tr → .asyncAccepted i p ∈ tr ∧ i ∉ s.asyncPending
  /-- A payload that is not written waits or is being sent. -/
  settled : ∀ i p, .asyncAccepted i p ∈ tr →
    i ∈ s.asyncPending ∨ s.asyncCb = some i ∨ (i, p) ∈ asyncWrites tr

/-! ## The invariant -/

theorem cursor_append : cursor (tr ++ es) = es.foldl Cursor.next (cursor tr) := List.foldl_append ..

theorem asyncWrites_append :
    asyncWrites (tr ++ es) = asyncWrites tr ++ gathered Cursor.next Cursor.write (cursor tr) es :=
  gathered_append

def writtenHandles (tr : List Event) : List ℕ := (asyncWrites tr).map Prod.fst

/-- How far the `async_cb` of the handle `i` is. -/
def Stage (tr : List Event) (i : ℕ) : NetSend → Prop
  | .idle => cursor tr = .inside i ∧ i ∈ writtenHandles tr
  | .entered p => cursor tr = .inside i ∧ i ∉ writtenHandles tr ∧ .asyncAccepted i p ∈ tr
  | .obtained r p => cursor tr = .sending i r ∧ i ∉ writtenHandles tr ∧ .asyncAccepted i p ∈ tr
  | .filled r => cursor tr = .sending i r ∧ i ∉ writtenHandles tr ∧
      ∃ p, latest (payloadOf r) tr = some p ∧ .asyncAccepted i p ∈ tr

def asyncBytes (s : Netlibuv) (i : ℕ) : List UInt8 :=
  (s.asyncSend i).contents.take (uint (s.asyncSend i).datalen)

/-- The payloads accepted wait in their handles, are with the loop thread, or are written. -/
structure SendInv (tr : List Event) (s : Netlibuv) : Prop where
  accepted : tr.filterMap Event.acceptedOn ++ s.dAsyncSend = List.range asyncHandleNum
  once : (writtenHandles tr).Nodup
  intact : ∀ i p, (i, p) ∈ asyncWrites tr → .asyncAccepted i p ∈ tr
  pending : ∀ i ∈ s.asyncPending, .asyncAccepted i (s.asyncBytes i) ∈ tr ∧ i ∉ writtenHandles tr
  outside : s.asyncCb = none → cursor tr = .outside
  current : ∀ i, s.asyncCb = some i → Stage tr i (s.netSend loopThread)
  returned : ∀ i, .asyncReturned i ∈ tr → i ∈ writtenHandles tr

theorem sendInv_create (send : ℕ → Sendst) (asyncSend : ℕ → Safebuffer) :
    SendInv [] (create send asyncSend) := by
  constructor
  case accepted => rfl
  case once => exact List.nodup_nil
  case intact => simp [asyncWrites, gathered]
  case pending => simp [create]
  case outside => exact fun _ => rfl
  case current => simp [create]
  case returned => simp

theorem Stage.mono {tr' : List Event} {n : NetSend} (h : Stage tr i n)
    (hcur : cursor tr' = cursor tr) (hw : writtenHandles tr' = writtenHandles tr)
    (hsub : tr ⊆ tr')
    (hpay : ∀ r, n = .filled r → latest (payloadOf r) tr' = latest (payloadOf r) tr) :
    Stage tr' i n := by
  cases n with
  | idle => exact ⟨hcur.trans h.1, hw ▸ h.2⟩
  | entered p => exact ⟨hcur.trans h.1, hw ▸ h.2.1, hsub h.2.2⟩
  | obtained r p => exact ⟨hcur.trans h.1, hw ▸ h.2.1, hsub h.2.2⟩
  | filled r =>
    obtain ⟨hc, hn, p, hp, ha⟩ := h
    exact ⟨hcur.trans hc, hw ▸ hn, p, (hpay r rfl).trans hp, hsub ha⟩

theorem acceptedOn_eq_none {e : Event} (h : e.isAsync = false) : e.acceptedOn = none := by
  cases e with
  | asyncAccepted => cases h
  | _ => rfl

theorem SendInv.of_moved (hi : SendInv tr s) (hd : s'.dAsyncSend = s.dAsyncSend)
    (hp : s'.asyncPending ⊆ s.asyncPending) (hb : s'.asyncSend = s.asyncSend)
    (hw : gathered Cursor.next Cursor.write (cursor tr) es = [])
    (ha : es.filterMap Event.acceptedOn = [])
    (hout : s'.asyncCb = none → cursor (tr ++ es) = .outside)
    (hcur : writtenHandles (tr ++ es) = writtenHandles tr →
      ∀ i, s'.asyncCb = some i → Stage (tr ++ es) i (s'.netSend loopThread))
    (hret : ∀ i, .asyncReturned i ∈ es → i ∈ writtenHandles tr) : SendInv (tr ++ es) s' := by
  have hwrites : asyncWrites (tr ++ es) = asyncWrites tr := by
    rw [asyncWrites_append, hw, List.append_nil]
  have hhandles : writtenHandles (tr ++ es) = writtenHandles tr :=
    congrArg (List.map Prod.fst) hwrites
  constructor
  case accepted => rw [List.filterMap_append, ha, List.append_nil, hd]; exact hi.accepted
  case once => rw [hhandles]; exact hi.once
  case intact =>
    rw [hwrites]
    exact fun i p hm => List.mem_append_left _ (hi.intact i p hm)
  case pending =>
    intro i hm
    obtain ⟨ha, hnot⟩ := hi.pending i (hp hm)
    rw [hhandles, asyncBytes, hb]
    exact ⟨List.mem_append_left _ ha, hnot⟩
  case outside => exact hout
  case current => exact hcur hhandles
  case returned =>
    intro i hm
    rw [hhandles]
    rcases List.mem_append.mp hm with hm | hm
    · exact hi.returned i hm
    · exact hret i hm

theorem SendInv.of_eq (hi : SendInv tr s) (hd : s'.dAsyncSend = s.dAsyncSend)
    (hp : s'.asyncPending = s.asyncPending) (hb : s'.asyncSend = s.asyncSend)
    (hc : s'.asyncCb = s.asyncCb)
    (hn : s.asyncCb ≠ none → s'.netSend loopThread = s.netSend loopThread)
    (hsame : ∀ e ∈ es, (cursor tr).next e = cursor tr ∧ (cursor tr).write e = none)
    (he : ∀ e ∈ es, e.isAsync = false)
    (hpay : ∀ r, s.netSend loopThread = .filled r →
      latest (payloadOf r) (tr ++ es) = latest (payloadOf r) tr) : SendInv (tr ++ es) s' := by
  obtain ⟨hcur, hwrites⟩ := gathered_of_same hsame
  have hcur' : cursor (tr ++ es) = cursor tr := cursor_append.trans hcur
  have hnil : es.filterMap Event.acceptedOn = [] :=
    List.filterMap_eq_nil_iff.mpr fun e hm => acceptedOn_eq_none (he e hm)
  refine hi.of_moved hd hp.subset hb hwrites hnil ?_ (fun hw i hci => ?_) fun i hm => ?_
  · rw [hc, hcur']
    exact hi.outside
  · rw [hc] at hci
    rw [hn (by simp [hci])]
    exact (hi.current i hci).mono hcur' hw (List.subset_append_left ..) hpay
  · cases he _ hm

theorem same_of_isPool {e : Event} (c : Cursor) (ha : e.isAsync = false)
    (ho : e.isObtained = false) (hu : ∀ x bytes, e ≠ .uvWrite x true bytes) :
    c.next e = c ∧ c.write e = none := by
  cases e with
  | asyncAccepted | asyncEntered | asyncReturned => cases ha
  | obtained => cases ho
  | uvWrite x handle bytes =>
    cases handle with
    | true => exact (hu x bytes rfl).elim
    | false => cases c <;> exact ⟨rfl, rfl⟩
  | asyncRefused | writeCb | tcpInit | tcpConnect | uvClose | netConnect | netReConnect
  | connectCb | connectCallBack | readStop | readCallback | closeCb | fault =>
    cases c <;> exact ⟨rfl, rfl⟩

theorem SendInv.of_quiet (hi : SendInv tr s) (hd : s'.dAsyncSend = s.dAsyncSend)
    (hp : s'.asyncPending = s.asyncPending) (hb : s'.asyncSend = s.asyncSend)
    (hc : s'.asyncCb = s.asyncCb)
    (hn : s.asyncCb ≠ none → s'.netSend loopThread = s.netSend loopThread)
    (he : ∀ e ∈ es, e.isAsync = false ∧ e.isObtained = false ∧
      ∀ x bytes, e ≠ .uvWrite x true bytes) : SendInv (tr ++ es) s' := by
  refine hi.of_eq hd hp hb hc hn (fun e hm => ?_) (fun e hm => (he e hm).1) fun r _ => ?_
  · obtain ⟨ha, ho, hu⟩ := he e hm
    exact same_of_isPool _ ha ho hu
  · refine latest_append_of_none fun e hm => ?_
    cases e with
    | obtained => cases (he _ hm).2.1
    | _ => rfl

/-! ## Steps -/

theorem SendInv.accepted_of_written (hi : SendInv tr s) (h : i ∈ writtenHandles tr) :
    i ∈ tr.filterMap Event.acceptedOn := by
  obtain ⟨⟨j, p⟩, hm, rfl⟩ := List.mem_map.mp h
  exact List.mem_filterMap.mpr ⟨_, hi.intact j p hm, rfl⟩

theorem WriteInv.bytes_of_accept (hi : WriteInv w tr s) {b : Safebuffer} {ok : Bool}
    (hd : i ∈ s.dAsyncSend) (hp : Sized w p) (hre : re.ok = true)
    (hb : (s.asyncSend i).clearMem.readmem w p ma re = some (b, ok)) :
    b.contents.take (uint b.datalen) = p := by
  obtain ⟨ma₀, hnew⟩ := hi.unused i hd
  obtain ⟨hwf, -⟩ := Safebuffer.wellFormed_create
    (Nat.lt_of_le_of_lt (Nat.le_add_left ..) hp.2) hnew
  have hcl := hwf.clearMem
  have hempty : (s.asyncSend i).clearMem.contents = [] :=
    List.eq_nil_of_length_eq_zero hcl.length_contents
  obtain ⟨b', hb', hwf', hcont⟩ := hcl.readmem p ma
    (by simpa [Safebuffer.clearMem] using hp.2) hre
  obtain ⟨rfl, -⟩ := Prod.mk.inj (Option.some.inj (hb'.symm.trans hb))
  rw [hempty, List.nil_append] at hcont
  have hlen : uint b'.datalen = p.length := by
    rw [← hwf'.length_contents, hcont]
    exact Nat.mod_eq_of_lt hp.1
  rw [hlen, hcont, List.take_length]

theorem SendInv.accept (hi : SendInv tr s) {rest : List ℕ} {b : Safebuffer}
    (hd : s.dAsyncSend = i :: rest) (hb : b.contents.take (uint b.datalen) = p) :
    SendInv (tr ++ [.asyncAccepted i p]) { s with
      dAsyncSend := rest
      mapAsyncSend := insert i s.mapAsyncSend
      asyncSend := update s.asyncSend i b
      asyncPending := insert i s.asyncPending } := by
  have hcur : cursor (tr ++ [.asyncAccepted i p]) = cursor tr := by
    rw [cursor_append]
    cases cursor tr <;> rfl
  have hw : asyncWrites (tr ++ [.asyncAccepted i p]) = asyncWrites tr := by
    rw [asyncWrites_append]
    cases cursor tr <;> exact List.append_nil _
  have hw' : writtenHandles (tr ++ [.asyncAccepted i p]) = writtenHandles tr :=
    congrArg (List.map Prod.fst) hw
  have hfree : i ∉ tr.filterMap Event.acceptedOn := by
    have hnodup : (tr.filterMap Event.acceptedOn ++ i :: rest).Nodup := by
      rw [← hd, hi.accepted]
      exact List.nodup_range
    exact fun hm => (List.nodup_append.mp hnodup).2.2 i hm i List.mem_cons_self rfl
  constructor
  case accepted =>
    have haccepted := hi.accepted
    rw [hd] at haccepted
    rw [List.filterMap_append, List.append_assoc]
    exact haccepted
  case once => rw [hw']; exact hi.once
  case intact =>
    rw [hw]
    exact fun j q hm => List.mem_append_left _ (hi.intact j q hm)
  case pending =>
    intro j hj
    rw [hw']
    rcases eq_or_ne j i with rfl | hji
    · refine ⟨?_, fun hm => hfree (hi.accepted_of_written hm)⟩
      simp [asyncBytes, hb]
    · obtain ⟨ha, hnot⟩ := hi.pending j ((Finset.mem_insert.mp hj).resolve_left hji)
      refine ⟨List.mem_append_left _ ?_, hnot⟩
      simpa [asyncBytes, hji] using ha
  case outside =>
    rw [hcur]
    exact hi.outside
  case current =>
    intro j hj
    exact (hi.current j hj).mono hcur hw' (List.subset_append_left ..) fun r _ =>
      latest_append_of_none (by simp [payloadOf])
  case returned =>
    rw [hw']
    intro j hj
    exact hi.returned j (by simpa using hj)

theorem SendInv.enter (hi : SendInv tr s) (hc : s.asyncCb = none) (hp : i ∈ s.asyncPending) :
    SendInv (tr ++ [.asyncEntered i]) { s with
      asyncPending := s.asyncPending.erase i
      asyncCb := some i
      netSend := update s.netSend loopThread (.entered (s.asyncBytes i)) } := by
  have hout := hi.outside hc
  refine hi.of_moved rfl (Finset.erase_subset ..) rfl ?_ rfl (fun h => by cases h) ?_ (by simp)
  · rw [hout]
    rfl
  · intro hw j hj
    obtain rfl : i = j := Option.some.inj hj
    obtain ⟨ha, hnot⟩ := hi.pending i hp
    change Stage _ i (update s.netSend loopThread _ loopThread)
    rw [update_self]
    refine ⟨?_, hw ▸ hnot, List.mem_append_left _ ha⟩
    rw [cursor_append, hout]
    rfl

theorem SendInv.leave (hi : SendInv tr s) (hc : s.asyncCb = some i)
    (hn : s.netSend loopThread = .idle) :
    SendInv (tr ++ [.asyncReturned i]) { s with asyncCb := none } := by
  obtain ⟨hin, hmem⟩ : cursor tr = .inside i ∧ i ∈ writtenHandles tr := by
    have hst := hi.current i hc
    rwa [hn] at hst
  refine hi.of_moved rfl subset_rfl rfl ?_ rfl (fun _ => ?_) (fun _ j hj => by cases hj) ?_
  · rw [hin]
    rfl
  · rw [cursor_append, hin]
    rfl
  · intro j hj
    obtain rfl : j = i := by simpa using hj
    exact hmem

theorem SendInv.obtain (hi : SendInv tr s) (hw : WriteInv w tr s) (hn : s.netSend t = .entered p)
    (h : s.takeSend ma = some (r, s₁)) : SendInv (tr ++ [.obtained t r p])
      { s₁ with netSend := update s.netSend t (.obtained r p) } := by
  have hframe := takeSend_frame h
  have hda : s₁.dAsyncSend = s.dAsyncSend := by rw [hframe]
  have hpend : s₁.asyncPending = s.asyncPending := by rw [hframe]
  have hsend : s₁.asyncSend = s.asyncSend := by rw [hframe]
  have hcb : s₁.asyncCb = s.asyncCb := by rw [hframe]
  by_cases hloop : t = loopThread ∧ s.asyncCb ≠ none
  · obtain ⟨rfl, hne⟩ := hloop
    obtain ⟨i, hc⟩ := Option.ne_none_iff_exists'.mp hne
    obtain ⟨hin, hnot, hacc⟩ : cursor tr = .inside i ∧ i ∉ writtenHandles tr ∧
        .asyncAccepted i p ∈ tr := by
      have hst := hi.current i hc
      rwa [hn] at hst
    refine hi.of_moved hda hpend.subset hsend ?_ rfl (fun h => ?_) ?_ (by simp)
    · rw [hin]
      rfl
    · rw [hcb, hc] at h
      cases h
    · intro hw' j hj
      obtain rfl : i = j := Option.some.inj (hc.symm.trans (hcb.symm.trans hj))
      change Stage _ i (update s.netSend loopThread _ loopThread)
      rw [update_self]
      refine ⟨?_, hw' ▸ hnot, List.mem_append_left _ hacc⟩
      rw [cursor_append, hin]
      rfl
  · refine hi.of_eq hda hpend hsend hcb (fun hne => ?_) (fun e he => ?_)
      (by simp [Event.isAsync]) ?_
    · have ht : loopThread ≠ t := fun he => hloop ⟨he.symm, hne⟩
      exact update_of_ne ht ..
    · obtain rfl := List.mem_singleton.mp he
      by_cases ht : t = loopThread
      · have hout := hi.outside (by simpa [ht] using hloop)
        rw [hout]
        exact ⟨rfl, rfl⟩
      · cases cursor tr with
        | inside i => exact ⟨if_neg ht, rfl⟩
        | outside | sending => exact ⟨rfl, rfl⟩
    · intro x hx
      have hxr : r ≠ x := by
        rintro rfl
        exact (hw.poolInv.takes h).1 (hw.held (.caller loopThread) r (.inr hx))
      exact latest_append_of_none (by simp [payloadOf, hxr])

theorem SendInv.fill (hi : SendInv tr s) (hw : WriteInv w tr s) {st : Sendst}
    (hn : s.netSend t = .obtained r p) : SendInv (tr ++ []) { s with
      send := update s.send r st
      netSend := update s.netSend t (.filled r) } := by
  by_cases hloop : t = loopThread ∧ s.asyncCb ≠ none
  · obtain ⟨rfl, hne⟩ := hloop
    obtain ⟨i, hc⟩ := Option.ne_none_iff_exists'.mp hne
    obtain ⟨hin, hnot, hacc⟩ : cursor tr = .sending i r ∧ i ∉ writtenHandles tr ∧
        .asyncAccepted i p ∈ tr := by
      have hst := hi.current i hc
      rwa [hn] at hst
    refine hi.of_moved rfl subset_rfl rfl rfl rfl (fun h => absurd h hne) ?_ (by simp)
    intro _ j hj
    obtain rfl : i = j := Option.some.inj (hc.symm.trans hj)
    change Stage _ i (update s.netSend loopThread _ loopThread)
    rw [update_self, List.append_nil]
    exact ⟨hin, hnot, p, (hw.obtained loopThread r p hn).1, hacc⟩
  · refine hi.of_eq rfl rfl rfl rfl (fun hne => ?_) (by simp) (by simp) (by simp)
    have ht : loopThread ≠ t := fun he => hloop ⟨he.symm, hne⟩
    exact update_of_ne ht ..

theorem down_of_write (hs : s.step w (.write t 0) = some (s', es)) :
    s.ptcpHandle = !s'.down := by
  unfold step at hs
  split at hs
  · cases hs
  · next hdown =>
    dsimp only at hs
    split at hs
    · next r hr =>
      unfold write at hs
      dsimp only at hs
      split at hs
      · next hok =>
        obtain ⟨rfl, rfl⟩ := Prod.mk.inj (Option.some.inj hs)
        simp [hok.1, hdown]
      · next hok =>
        obtain ⟨rfl, rfl⟩ := Prod.mk.inj (Option.some.inj hs)
        simpa [abort] using hok
    all_goals cases hs

theorem SendInv.holds_of_sending (hi : SendInv tr s) (h : cursor tr = .sending i r) :
    s.asyncCb ≠ none ∧ s.Holds (.caller loopThread) r := by
  cases hc : s.asyncCb with
  | none => cases h.symm.trans (hi.outside hc)
  | some j =>
    refine ⟨Option.some_ne_none j, ?_⟩
    have hst := hi.current j hc
    cases hn : s.netSend loopThread with
    | idle | entered p =>
      rw [hn] at hst
      cases h.symm.trans hst.1
    | obtained x p =>
      rw [hn] at hst
      obtain ⟨-, rfl⟩ := Cursor.sending.inj (h.symm.trans hst.1)
      exact .inl ⟨p, hn⟩
    | filled x =>
      rw [hn] at hst
      obtain ⟨-, rfl⟩ := Cursor.sending.inj (h.symm.trans hst.1)
      exact .inr hn

theorem SendInv.deliver (hi : SendInv tr s) (ha : AsyncInv tr s) (hc : s.asyncCb = some i)
    (hst : cursor tr = .sending i r ∧ i ∉ writtenHandles tr ∧ .asyncAccepted i p ∈ tr) :
    SendInv (tr ++ [.uvWrite r true p]) { s with
      writing := update s.writing r (some (s.send r).uvBuf)
      netSend := update s.netSend loopThread .idle } := by
  obtain ⟨hin, hnot, hacc⟩ := hst
  have hcur : cursor (tr ++ [.uvWrite r true p]) = .inside i := by
    rw [cursor_append, hin]
    exact if_pos rfl
  have hw : asyncWrites (tr ++ [.uvWrite r true p]) = asyncWrites tr ++ [(i, p)] := by
    rw [asyncWrites_append, hin]
    simp [gathered, Cursor.write]
  have hw' : writtenHandles (tr ++ [.uvWrite r true p]) = writtenHandles tr ++ [i] := by
    simp [writtenHandles, hw]
  constructor
  case accepted =>
    rw [List.filterMap_append]
    exact (congrArg (· ++ _) (List.append_nil _)).trans hi.accepted
  case once =>
    rw [hw']
    exact List.nodup_append.mpr ⟨hi.once, List.nodup_singleton i, by
      rintro x hx y hy rfl
      exact hnot (List.mem_singleton.mp hy ▸ hx)⟩
  case intact =>
    intro j q hm
    rw [hw] at hm
    rcases List.mem_append.mp hm with hm | hm
    · exact List.mem_append_left _ (hi.intact j q hm)
    · obtain ⟨rfl, rfl⟩ := Prod.mk.inj (List.mem_singleton.mp hm)
      exact List.mem_append_left _ hacc
  case pending =>
    intro j hj
    obtain ⟨hj', hn⟩ := hi.pending j hj
    have hji : j ≠ i := fun he => (ha.current i hc).2 (he ▸ hj)
    rw [hw']
    exact ⟨List.mem_append_left _ hj', by simp [hn, hji]⟩
  case outside => exact fun h => by cases hc.symm.trans h
  case current =>
    intro j hj
    obtain rfl : i = j := Option.some.inj (hc.symm.trans hj)
    change Stage _ i (update s.netSend loopThread _ loopThread)
    rw [update_self]
    exact ⟨hcur, by rw [hw']; exact List.mem_concat_self⟩
  case returned =>
    intro j hj
    rw [hw']
    exact List.mem_append_left _ (hi.returned j (by simpa using hj))

theorem SendInv.write (hi : SendInv tr s) (ha : AsyncInv tr s) (hw : WriteInv w tr s)
    (hn : s.netSend t = .filled r) :
    SendInv (tr ++ [.uvWrite r true ((s.send r).buffer.covered (s.send r).uvBuf)]) { s with
      writing := update s.writing r (some (s.send r).uvBuf)
      netSend := update s.netSend t .idle } := by
  by_cases hloop : t = loopThread ∧ s.asyncCb ≠ none
  · obtain ⟨rfl, hne⟩ := hloop
    obtain ⟨i, hc⟩ := Option.ne_none_iff_exists'.mp hne
    obtain ⟨hin, hnot, p, hpay, hacc⟩ : cursor tr = .sending i r ∧ i ∉ writtenHandles tr ∧
        ∃ p, latest (payloadOf r) tr = some p ∧ .asyncAccepted i p ∈ tr := by
      have hst := hi.current i hc
      rwa [hn] at hst
    obtain ⟨q, hq, hcov⟩ := hw.filled loopThread r hn
    obtain rfl : p = q := Option.some.inj (hpay.symm.trans hq)
    rw [hcov.2]
    exact hi.deliver ha hc ⟨hin, hnot, hacc⟩
  · refine hi.of_eq rfl rfl rfl rfl (fun hne => ?_) (fun e he => ?_) (by simp [Event.isAsync]) ?_
    · have ht : loopThread ≠ t := fun he => hloop ⟨he.symm, hne⟩
      exact update_of_ne ht ..
    · obtain rfl := List.mem_singleton.mp he
      cases hcur : cursor tr with
      | outside | inside => exact ⟨rfl, rfl⟩
      | sending j x =>
        obtain ⟨hne, hx⟩ := hi.holds_of_sending hcur
        have hrx : r ≠ x := by
          rintro rfl
          have hself : s.Holds (.caller t) r := .inr hn
          have ht := hw.exclusive _ _ _ hself hx
          exact hloop ⟨Holder.caller.inj ht, hne⟩
        exact ⟨if_neg hrx, if_neg hrx⟩
    · exact fun x _ => latest_append_of_none (by simp [payloadOf])

theorem SendInv.step (hi : SendInv tr s) (ha : AsyncInv tr s) (hw : WriteInv w tr s)
    (hg : assumed w s a) (hs : s.step w a = some (s', es)) : SendInv (tr ++ es) s' := by
  cases step_cases hs with
  | asyncRefused t p ma re =>
    exact hi.of_quiet rfl rfl rfl rfl (fun _ => rfl) (by simp [Event.isAsync, Event.isObtained])
  | asyncAccepted t p ma re i rest b ok hd _ hb =>
    exact hi.accept hd (hw.bytes_of_accept (by simp [hd]) hg.1 hg.2.2 hb)
  | entered t p hidle =>
    refine hi.of_quiet rfl rfl rfl rfl (fun hne => ?_) (by simp)
    exact update_of_ne (fun he => hne (hidle.2 he.symm)) ..
  | obtained t ma p r s₁ hn ht => exact hi.obtain hw hn ht
  | filled t ma re p r b ok hn => exact hi.fill hw hn
  | written t r hn =>
    have hh := down_of_write hs
    have hdown : ¬ s.down = true := (Option.ite_none_left_eq_some.mp hs).1
    have hev : Event.uvWrite r s.ptcpHandle ((s.send r).buffer.covered (s.send r).uvBuf) =
        .uvWrite r true ((s.send r).buffer.covered (s.send r).uvBuf) := by
      rw [hh]
      simp [hdown]
    rw [hev]
    exact hi.write ha hw hn
  | writeFault t r err hn =>
    have hh : s.ptcpHandle = false := by
      obtain rfl : err = 0 := hg
      exact down_of_write hs
    exact hi.of_quiet rfl rfl rfl rfl (fun _ => rfl) (by simp [Event.isAsync, Event.isObtained, hh])
  | asyncEntered i hl hp => exact hi.enter hl.2 hp
  | asyncUnknown i hp hm => exact (hm (ha.pending i hp)).elim
  | asyncReturned i hc hn => exact hi.leave hc hn
  | writeDone r status | writeUnknown r status =>
    exact hi.of_quiet rfl rfl rfl rfl (fun _ => rfl) (by simp [Event.isAsync, Event.isObtained])
  | socket a s' es hc =>
    obtain ⟨he, hev⟩ := hc.sendsKept
    rw [he]
    refine hi.of_quiet rfl rfl rfl rfl (fun _ => rfl) fun e hm => ?_
    have hsend := hev e hm
    cases e <;> simp [Event.isSend, Event.isAsync, Event.isObtained] at hsend ⊢

theorem sendInv_of_reach (h : (netlib w).Reach (assumed w) tr s) : SendInv tr s := by
  refine h.invariant (I := SendInv) ?_ fun tr s a s' es hr hi hg hs =>
    hi.step (asyncInv_of_reach (hr.mono fun _ _ _ => trivial)) (writeInv_of_reach hr) hg hs
  rintro s ⟨send, asyncSend, -, rfl⟩
  exact sendInv_create send asyncSend

/-! ## Histories -/

theorem SendInv.mem_of_accepted (hi : SendInv tr s) (ha : AsyncInv tr s)
    (h : .asyncAccepted i p ∈ tr) : i ∈ s.mapAsyncSend := by
  have hmem : i ∈ tr.filterMap Event.acceptedOn := List.mem_filterMap.mpr ⟨_, h, rfl⟩
  have hnodup : (tr.filterMap Event.acceptedOn ++ s.dAsyncSend).Nodup := by
    rw [hi.accepted]
    exact List.nodup_range
  have hlt : i < asyncHandleNum := by
    rw [← List.mem_range, ← hi.accepted]
    exact List.mem_append_left _ hmem
  refine ((ha.known i).mpr hlt).resolve_left fun hd => ?_
  exact (List.nodup_append.mp hnodup).2.2 i hmem i hd rfl

theorem SendInv.accepted_unique (hi : SendInv tr s) {q : List UInt8}
    (hp : .asyncAccepted i p ∈ tr) (hq : .asyncAccepted i q ∈ tr) : p = q := by
  have hnodup : (tr.filterMap Event.acceptedOn).Nodup := by
    have hrange : (tr.filterMap Event.acceptedOn ++ s.dAsyncSend).Nodup := by
      rw [hi.accepted]
      exact List.nodup_range
    exact (List.nodup_append.mp hrange).1
  by_contra hne
  have hpair := List.pairwise_filterMap.mp hnodup
  have hsymm : Std.Symm fun e e' : Event => ∀ j, e.acceptedOn = some j →
      ∀ j', e'.acceptedOn = some j' → j ≠ j' :=
    ⟨fun e e' h j hj j' hj' => (h j' hj' j hj).symm⟩
  have hdiff : Event.asyncAccepted i p ≠ .asyncAccepted i q := by simpa using hne
  exact hpair.forall hp hq hdiff i rfl i rfl rfl

/-- In every history. -/
theorem delivered_of_reach (h : (netlib w).Reach (assumed w) tr s) : Delivered tr s := by
  have hi := sendInv_of_reach h
  have ha := asyncInv_of_reach (h.mono fun _ _ _ => trivial)
  constructor
  case accepted => exact hi.accepted
  case once => exact hi.once
  case intact =>
    intro i p hm
    refine ⟨hi.intact i p hm, fun hp => (hi.pending i hp).2 ?_⟩
    exact List.mem_map.mpr ⟨_, hm, rfl⟩
  case settled =>
    intro i p hp
    rcases ha.used i (hi.mem_of_accepted ha hp) with hu | hu | hu
    · exact .inl hu
    · exact .inr (.inl hu)
    · obtain ⟨⟨j, q⟩, hm, rfl⟩ := List.mem_map.mp (hi.returned i hu)
      obtain rfl := hi.accepted_unique hp (hi.intact j q hm)
      exact .inr (.inr hm)

/-- While the second of two payloads is being sent, a thread sends another one. -/
theorem delivered_of_reach_example : ∃ tr s, (netlib 64).Reach (assumed 64) tr s ∧
    asyncWrites tr = [(0, [7]), (1, [8, 9])] ∧ .uvWrite 1 true [5] ∈ tr ∧ Delivered tr s := by
  let ok : Answer := ⟨true, 100, fun _ => 0⟩
  obtain ⟨tr, s, hr, hp⟩ := System.exists_run_of_exec (M := netlib 64) (G := assumed 64)
    (s := fresh)
    [.netConnect 0, .connectCb 0, .netAsyncSend 1 [7] ok ok, .netAsyncSend 2 [8, 9] ok ok,
      .asyncEnter 0, .takeSend 0 ok, .fill 0 ok ok, .write 0 0, .asyncReturn, .asyncEnter 1,
      .netSend 1 [5], .takeSend 1 ok, .takeSend 0 ok, .fill 0 ok ok, .fill 1 ok ok, .write 1 0,
      .write 0 0, .asyncReturn, .writeCb 1 0]
    (p := fun _ tr => decide (asyncWrites tr = [(0, [7]), (1, [8, 9])] ∧
      .uvWrite 1 true [5] ∈ tr)) (by decide +kernel)
  have h : (netlib 64).Reach (assumed 64) tr s := ⟨_, init_fresh, hr⟩
  exact ⟨tr, s, h, (of_decide_eq_true hp).1, (of_decide_eq_true hp).2, delivered_of_reach h⟩

end UvWrapper.Netlibuv
