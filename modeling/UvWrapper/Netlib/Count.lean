import UvWrapper.Lib.Peak
import UvWrapper.Netlib.Writes
import Mathlib.Data.Finset.Card

/-! # How many write records there are

A record is made only where all others are in use, and none is ever given up. So there are
as many as writes have been in flight at one time.
-/

namespace UvWrapper.Netlibuv

open Function HighWater Memory Transition

variable {w : ℕ} {s s' s₁ : Netlibuv} {a : Act} {es tr : List Event} {t r : ℕ}
  {p : List UInt8} {ma : Answer}

def inFlight (tr : List Event) : ℕ := tr.countP Event.isObtained - tr.countP Event.isWritten

theorem inFlight_concat {e : Event} (h : e.isPool = false) (tr : List Event) :
    inFlight (tr ++ [e]) = inFlight tr := by
  obtain ⟨ho, hw⟩ := Bool.or_eq_false_iff.mp h
  simp [inFlight, ho, hw]

theorem countP_obtained (tr : List Event) (t r : ℕ) (p : List UInt8) :
    (tr ++ [Event.obtained t r p]).countP Event.isObtained = tr.countP Event.isObtained + 1 ∧
      (tr ++ [Event.obtained t r p]).countP Event.isWritten = tr.countP Event.isWritten := by
  simp [Event.isObtained, Event.isWritten]

theorem countP_written (tr : List Event) (r : ℕ) (found : Bool) (status : ℤ) :
    (tr ++ [Event.writeCb r found status]).countP Event.isObtained = tr.countP Event.isObtained ∧
      (tr ++ [Event.writeCb r found status]).countP Event.isWritten =
        tr.countP Event.isWritten + 1 := by
  simp [Event.isObtained, Event.isWritten]

/-- Every record is free or in flight, and no more were made than have been in flight. -/
structure CountInv (tr : List Event) (s : Netlibuv) : Prop where
  balance : tr.countP Event.isObtained = s.mapSend.card + tr.countP Event.isWritten
  created : s.created = s.dSend.length + s.mapSend.card
  peak : Peak inFlight tr s.created

theorem takeSend_count (h : s.takeSend ma = some (r, s₁)) :
    (s.dSend = [] ∧ s₁.dSend = [] ∧ s₁.created = s.created + 1) ∨
      (s.dSend = r :: s₁.dSend ∧ s₁.created = s.created) := by
  rcases takeSend_cases h with ⟨b, hd, -, -, rfl⟩ | ⟨rest, hd, rfl⟩
  · exact .inl ⟨hd, hd, rfl⟩
  · exact .inr ⟨hd, rfl⟩

theorem CountInv.of_eq (hi : CountInv tr s) (hd : s'.dSend = s.dSend)
    (hm : s'.mapSend = s.mapSend) (hc : s'.created = s.created)
    (he : ∀ e ∈ es, e.isPool = false) : CountInv (tr ++ es) s' := by
  have ho : es.countP Event.isObtained = 0 :=
    List.countP_eq_zero.mpr fun e hm => by simp [(Bool.or_eq_false_iff.mp (he e hm)).1]
  have hw : es.countP Event.isWritten = 0 :=
    List.countP_eq_zero.mpr fun e hm => by simp [(Bool.or_eq_false_iff.mp (he e hm)).2]
  constructor
  · simpa only [List.countP_append, ho, hw, hm, Nat.add_zero] using hi.balance
  · simpa only [hd, hm, hc] using hi.created
  · rw [hc]
    exact hi.peak.append fun tr' e hm => inFlight_concat (he e hm) tr'

theorem CountInv.obtain (hi : CountInv tr s) (hr : r ∉ s.mapSend)
    (hm : s₁.mapSend = insert r s.mapSend) (h : s.takeSend ma = some (r, s₁))
    {n : ℕ → NetSend} : CountInv (tr ++ [.obtained t r p]) { s₁ with netSend := n } := by
  have hcard : s₁.mapSend.card = s.mapSend.card + 1 := by rw [hm, Finset.card_insert_of_notMem hr]
  have hcount := hi.balance
  have hcreated := hi.created
  obtain ⟨ho, hw⟩ := countP_obtained tr t r p
  have hfly : inFlight (tr ++ [.obtained t r p]) = s.mapSend.card + 1 := by
    rw [inFlight, ho, hw]
    omega
  constructor
  case balance =>
    rw [ho, hw, hcard]
    omega
  case created =>
    dsimp only
    rcases takeSend_count h with ⟨hd, hd', hc⟩ | ⟨hd, hc⟩
    · rw [hd, List.length_nil] at hcreated
      rw [hc, hd', List.length_nil]
      omega
    · rw [hd, List.length_cons] at hcreated
      omega
  case peak =>
    dsimp only
    rcases takeSend_count h with ⟨hd, -, hc⟩ | ⟨hd, hc⟩
    · -- all records are in use, so the new one makes a new mark
      rw [hd, List.length_nil] at hcreated
      have hp := hi.peak.concat (.obtained t r p)
      rwa [hfly, Nat.max_eq_right (by omega), show s.mapSend.card + 1 = s₁.created by omega] at hp
    · rw [hd, List.length_cons] at hcreated
      rw [hc]
      apply hi.peak.concat_of_le
      omega

theorem CountInv.recycle (hi : CountInv tr s) (hr : r ∈ s.mapSend) {status : ℤ}
    {v : ℕ → Option UvBuf} : CountInv (tr ++ [.writeCb r true status]) { s with
      writing := v
      dSend := s.dSend ++ [r]
      mapSend := s.mapSend.erase r } := by
  have hcard : (s.mapSend.erase r).card + 1 = s.mapSend.card := Finset.card_erase_add_one hr
  have hcount := hi.balance
  have hcreated := hi.created
  obtain ⟨ho, hw⟩ := countP_written tr r true status
  constructor
  case balance =>
    dsimp only
    rw [ho, hw]
    omega
  case created =>
    simp only [List.length_append, List.length_singleton]
    omega
  case peak =>
    apply hi.peak.concat_of_le
    rw [inFlight, ho, hw]
    omega

theorem CountInv.step (hi : CountInv tr s) (hw : WriteInv w tr s) (hg : assumed w s a)
    (hs : s.step w a = some (s', es)) : CountInv (tr ++ es) s' := by
  cases step_cases hs with
  | asyncRefused | asyncAccepted | entered | filled | written | writeFault | asyncEntered
  | asyncUnknown | asyncReturned =>
    exact hi.of_eq rfl rfl rfl (by simp [Event.isPool, Event.isObtained, Event.isWritten])
  | obtained t ma p r s₁ hn ht =>
    have hsized := hw.entered t p hn
    obtain ⟨hr, hm, -⟩ := hw.takes (Nat.lt_of_le_of_lt (Nat.le_add_left ..) hsized.2) ht
    exact hi.obtain hr hm ht
  | writeDone r status buf _ hr => exact hi.recycle hr
  | writeUnknown r status buf hb hr =>
    exact (hr (hw.held .libuv r (Option.isSome_of_eq_some hb))).elim
  | socket a s' es hc =>
    obtain ⟨he, hev⟩ := hc.sendsKept
    rw [he]
    exact hi.of_eq rfl rfl rfl fun e hm => isPool_eq_false (hev e hm)

theorem countInv_of_reach (h : (netlib w).Reach (assumed w) tr s) : CountInv tr s := by
  refine h.invariant (I := CountInv) ?_ fun tr s a s' es hr hi hg hs =>
    hi.step (writeInv_of_reach hr) hg hs
  rintro s ⟨send, asyncSend, -, rfl⟩
  exact ⟨rfl, rfl, peak_nil⟩

/-- Every record is in exactly one container, in the map exactly while its write is in
flight; a write's `uv_buf_t` covers its payload; the callbacks find their records; and as many
records exist as writes have been in flight at one time. -/
structure PoolExact (w : ℕ) (tr : List Event) (s : Netlibuv) : Prop where
  exactlyOne : s.dSend.Nodup ∧ ∀ r < s.created, Xor (r ∈ s.dSend) (r ∈ s.mapSend)
  inMap : ∀ r, r ∈ s.mapSend ↔ latest (flightOf r) tr = some true
  intact : ∀ r buf, s.writing r = some buf → ∃ p, latest (payloadOf r) tr = some p ∧
    buf.len = p.length ∧ (s.send r).buffer.covered buf = p
  /-- No copy has run over the end of a buffer. -/
  buffers : ∀ r < s.created, (s.send r).buffer.WellFormed w
  found : ∀ r status, .writeCb r false status ∉ tr
  peak : Peak inFlight tr s.created

/-- The pool of write records is exact in every state of every run. -/
theorem poolExact (h : (netlib w).Reach (assumed w) tr s) : PoolExact w tr s := by
  have hi := writeInv_of_reach h
  constructor
  case exactlyOne =>
    refine ⟨hi.pool.nodup, fun r hr => ?_⟩
    rcases (hi.known r).mpr hr with hf | hb
    · exact .inl ⟨hf, hi.pool.disjoint r hf⟩
    · exact .inr ⟨hb, fun hf => hi.pool.disjoint r hf hb⟩
  case inMap => exact hi.flying
  case intact =>
    intro r buf hb
    obtain ⟨rfl, p, hp, hlen, hcov⟩ := hi.writing r buf hb
    exact ⟨p, hp, hlen, hcov⟩
  case buffers => exact hi.buffers
  case found => exact hi.found
  case peak => exact (countInv_of_reach h).peak

instance (w : ℕ) : DecidableRel (assumed w) := fun _ a =>
  match a with
  | .netAsyncSend _ p ma re =>
    inferInstanceAs (Decidable (Sized w p ∧ ma.ok = true ∧ re.ok = true))
  | .netSend _ p => inferInstanceAs (Decidable (Sized w p))
  | .takeSend _ ma => inferInstanceAs (Decidable (ma.ok = true))
  | .fill _ ma re => inferInstanceAs (Decidable (ma.ok = true ∧ re.ok = true))
  | .write _ err => inferInstanceAs (Decidable (err = 0))
  | .asyncEnter _ | .asyncReturn | .writeCb _ _ | .netConnect _ | .netReConnect _
  | .netCloseConnection | .connectCb _ | .readCb _ | .closeCb => .isTrue trivial

/-- Two sends overlap, and their callbacks come in the other order. -/
theorem poolExact_example : ∃ tr s, (netlib 64).Reach (assumed 64) tr s ∧ s.created = 2 ∧
    s.dSend = [1, 0] ∧ PoolExact 64 tr s := by
  let ok : Answer := ⟨true, 100, fun _ => 0⟩
  obtain ⟨tr, s, hr, hp⟩ := System.exists_run_of_exec (M := netlib 64) (G := assumed 64)
    (s := fresh)
    [.netConnect 0, .connectCb 0, .netSend 1 [7], .netSend 2 [8, 9], .takeSend 1 ok,
      .takeSend 2 ok, .fill 1 ok ok, .fill 2 ok ok, .write 2 0, .write 1 0, .writeCb 1 0,
      .writeCb 0 (-1)]
    (p := fun s _ => decide (s.created = 2 ∧ s.dSend = [1, 0])) (by decide +kernel)
  obtain ⟨hc, hd⟩ := of_decide_eq_true hp
  have h : (netlib 64).Reach (assumed 64) tr s := ⟨_, init_fresh, hr⟩
  exact ⟨tr, s, h, hc, hd, poolExact h⟩

end UvWrapper.Netlibuv
