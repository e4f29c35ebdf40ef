import UvWrapper.Uvcpp.SendBuffer
import Mathlib.Data.Nat.Basic

/-! # Growing the send buffer

Where the payload does not fit, `send` asks `allocSendBuf` for the difference between the
length of the buffer and what it needs, so that the new length falls as the payload grows,
until the subtraction wraps; and the block that `realloc` returns is not kept. The payload
finds room exactly where the new length is large enough all the same and `realloc` has left
the block in its place.
-/

namespace UvWrapper.Uvcpp

open Memory

variable {s : Uvcpp} {buf : List UInt8} {re ma : Answer}

/-- The state in which `send` reaches its `memcpy`. -/
def grown (s : Uvcpp) (buf : List UInt8) (re ma : Answer) : Uvcpp :=
  if s.sendLen < uint (buf.length + s.sendOffset) then
    s.allocSendBuf (uintSub (uintSub s.sendLen buf.length) s.sendOffset) re ma
  else s

theorem append_eq (s : Uvcpp) (buf : List UInt8) (re ma : Answer) : s.append buf re ma =
    let s₁ := s.grown buf re ma
    ({ s₁ with
        sendBuf := { s₁.sendBuf with bytes := memcpy s₁.sendBuf.bytes s₁.sendOffset buf }
        sendOffset := uint (s₁.sendOffset + buf.length) },
      [.appended buf
        (s₁.sendBufLive && decide (s₁.sendOffset + buf.length ≤ s₁.sendBuf.bytes.length))]) :=
  rfl

def newSize (sendLen len : ℕ) : ℕ := uint (uint (sendLen + (2 ^ 32 - len)) * bufferIncreaseFactor)

/-- What `send` subtracts, `allocSendBuf` adds again. -/
theorem newSize_eq {sendLen len offset : ℕ} (ho : offset < 2 ^ 32) :
    uint (uint (offset + uintSub (uintSub sendLen len) offset) * bufferIncreaseFactor) =
      newSize sendLen len := by
  simp only [newSize, uintSub, uint, bufferIncreaseFactor]
  omega

/-- Twice the difference, which wraps where the payload is the longer one. -/
theorem le_newSize_iff {sendLen len offset : ℕ} (ho : offset ≤ sendLen)
    (hs : len + offset < 2 ^ 31) (hg : sendLen < len + offset) :
    offset + len ≤ newSize sendLen len ↔
      offset + 3 * len ≤ 2 * sendLen ∨
        (sendLen < len ∧ offset + 3 * len ≤ 2 * sendLen + 2 ^ 32) := by
  simp only [newSize, uint, bufferIncreaseFactor]
  omega

theorem grown_of_fits (re ma : Answer) (hf : s.BufferFits)
    (hg : buf.length + s.sendOffset ≤ s.sendLen) :
    s.grown buf re ma = s := by
  have hl := hf.len_lt
  have hu : uint (buf.length + s.sendOffset) = buf.length + s.sendOffset :=
    Nat.mod_eq_of_lt (by omega)
  rw [grown, if_neg (by omega)]

theorem grown_of_growth (re ma : Answer) (hn : buf.length + s.sendOffset < 2 ^ 31)
    (hg : s.sendLen < buf.length + s.sendOffset) : s.grown buf re ma =
      s.allocSendBuf (uintSub (uintSub s.sendLen buf.length) s.sendOffset) re ma := by
  have hu : uint (buf.length + s.sendOffset) = buf.length + s.sendOffset :=
    Nat.mod_eq_of_lt (by omega)
  rw [grown, if_pos (by omega)]

theorem allocSendBuf_frame (s : Uvcpp) (needSize : ℕ) (re ma : Answer) :
    (s.allocSendBuf needSize re ma).sendOffset = s.sendOffset ∧
      (s.allocSendBuf needSize re ma).sendLen =
        uint (uint (s.sendOffset + needSize) * bufferIncreaseFactor) := by
  unfold allocSendBuf
  dsimp only
  split
  · split <;> exact ⟨rfl, rfl⟩
  · split <;> exact ⟨rfl, rfl⟩

theorem allocSendBuf_live {needSize : ℕ} (hl : s.sendBufLive = true)
    (ha : re.ok = true ∨ ma.ok = true) :
    (s.allocSendBuf needSize re ma).sendBufLive = true ↔
      (re.ok = true → re.addr = s.sendBuf.addr) := by
  unfold allocSendBuf realloc malloc
  rcases Bool.eq_false_or_eq_true re.ok with hr | hr
  · simp only [hr, if_true, forall_const]
    split
    · next he => exact ⟨fun _ => he, fun _ => hl⟩
    · next he => exact ⟨nofun, fun h => (he h).elim⟩
  · have hm : ma.ok = true := ha.resolve_left (by simp [hr])
    simp [hr, hm]

theorem allocSendBuf_block {needSize : ℕ} (hf : s.BufferFits)
    (ha : re.ok = true ∨ ma.ok = true) (hr : re.ok = true → re.addr = s.sendBuf.addr)
    (hle : s.sendOffset ≤ (s.allocSendBuf needSize re ma).sendLen) :
    (s.allocSendBuf needSize re ma).sendBuf.bytes.length =
        (s.allocSendBuf needSize re ma).sendLen ∧
      (s.allocSendBuf needSize re ma).sendBuf.bytes.take s.sendOffset =
        s.sendBuf.bytes.take s.sendOffset := by
  have ho := hf.offset_le
  have hb := hf.len_le
  rw [(allocSendBuf_frame ..).2] at hle ⊢
  unfold allocSendBuf
  generalize uint (uint (s.sendOffset + needSize) * bufferIncreaseFactor) = size at hle ⊢
  dsimp only
  cases hok : re.ok with
  | true =>
    obtain ⟨blk, hre⟩ := realloc_ok (p := some s.sendBuf) (n := size) hok
    have haddr : blk.addr = s.sendBuf.addr := (addr_realloc hre).trans (hr hok)
    rw [hre]
    simp only [haddr, if_true]
    exact ⟨length_realloc hre, take_realloc_of_le hre (by omega) hle⟩
  | false =>
    have hnone : realloc re (some s.sendBuf) size = none := by simp [realloc, hok]
    have hm : ma.ok = true := ha.resolve_left (by simp [hok])
    obtain ⟨tmp, htmp⟩ : ∃ tmp, malloc ma size = some tmp := by simp [malloc, hm]
    have hlen : tmp.bytes.length = size := length_malloc htmp
    have hold : (s.sendBuf.bytes.take s.sendOffset).length = s.sendOffset := by
      rw [List.length_take]
      omega
    have hcopy := take_memcpy (d := tmp.bytes) (c := s.sendBuf.bytes.take s.sendOffset)
      (Nat.zero_le _)
    rw [hold, Nat.zero_add, List.take_zero, List.nil_append] at hcopy
    rw [hnone, htmp]
    refine ⟨?_, hcopy⟩
    rw [← hlen]
    exact length_memcpy (by omega)

/-- When `send` reaches its `memcpy` the payload fits behind the fill mark, in a live block
that still holds what waited there, and the fill mark is inside again afterwards. -/
structure MakesRoom (s : Uvcpp) (buf : List UInt8) (re ma : Answer) : Prop where
  room : (s.grown buf re ma).sendOffset + buf.length ≤ (s.grown buf re ma).sendLen
  live : (s.grown buf re ma).sendBufLive = true
  block : (s.grown buf re ma).sendLen ≤ (s.grown buf re ma).sendBuf.bytes.length
  kept : (s.grown buf re ma).sendBuf.bytes.take s.sendOffset =
    s.sendBuf.bytes.take s.sendOffset
  inside : (s.append buf re ma).2 = [.appended buf true]
  offset_le : (s.append buf re ma).1.sendOffset ≤ (s.append buf re ma).1.sendLen

/-- No growth is needed; or `realloc`, where it succeeds, leaves the block in its place, and
three times the payload with the bytes that wait is at most twice the length of the buffer,
taken modulo `2 ^ 32` where the payload alone is longer than the buffer. -/
def GrowthSuffices (s : Uvcpp) (buf : List UInt8) (re : Answer) : Prop :=
  buf.length + s.sendOffset ≤ s.sendLen ∨
    ((re.ok = true → re.addr = s.sendBuf.addr) ∧
      (s.sendOffset + 3 * buf.length ≤ 2 * s.sendLen ∨
        (s.sendLen < buf.length ∧ s.sendOffset + 3 * buf.length ≤ 2 * s.sendLen + 2 ^ 32)))

theorem MakesRoom.of_room (hs : (s.grown buf re ma).sendOffset = s.sendOffset)
    (hn : buf.length + s.sendOffset < 2 ^ 31)
    (hroom : s.sendOffset + buf.length ≤ (s.grown buf re ma).sendLen)
    (hlive : (s.grown buf re ma).sendBufLive = true)
    (hblock : (s.grown buf re ma).sendLen ≤ (s.grown buf re ma).sendBuf.bytes.length)
    (hkept : (s.grown buf re ma).sendBuf.bytes.take s.sendOffset =
      s.sendBuf.bytes.take s.sendOffset) : MakesRoom s buf re ma := by
  refine ⟨by rw [hs]; exact hroom, hlive, hblock, hkept, ?_, ?_⟩
  · have hfit : decide ((s.grown buf re ma).sendOffset + buf.length ≤
        (s.grown buf re ma).sendBuf.bytes.length) = true := by
      rw [decide_eq_true_eq, hs]
      omega
    rw [append_eq]
    simp only [hlive, hfit, Bool.and_self]
  · have hu : uint (s.sendOffset + buf.length) = s.sendOffset + buf.length :=
      Nat.mod_eq_of_lt (by omega)
    simp only [append_eq, hs, hu]
    exact hroom

/-- `send` makes room exactly where the growth suffices. -/
theorem makesRoom_iff (hf : s.BufferFits) (hl : s.sendBufLive = true)
    (hn : buf.length + s.sendOffset < 2 ^ 31) (ha : re.ok = true ∨ ma.ok = true) :
    MakesRoom s buf re ma ↔ GrowthSuffices s buf re := by
  have ho := hf.offset_le
  unfold GrowthSuffices
  rcases Nat.lt_or_ge s.sendLen (buf.length + s.sendOffset) with hg | hg
  · have hgrown := grown_of_growth re ma hn hg
    obtain ⟨hoff, hsize⟩ := allocSendBuf_frame s
      (uintSub (uintSub s.sendLen buf.length) s.sendOffset) re ma
    rw [newSize_eq (by omega)] at hsize
    have hiff := le_newSize_iff ho hn hg
    constructor
    · intro h
      have hroom := h.room
      have hlive := h.live
      rw [hgrown, hoff, hsize] at hroom
      rw [hgrown, allocSendBuf_live hl ha] at hlive
      exact .inr ⟨hlive, hiff.mp hroom⟩
    · rintro (h | ⟨hr, h⟩)
      · omega
      · have hroom := hiff.mpr h
        rw [← hsize] at hroom
        obtain ⟨hlen, hkept⟩ := allocSendBuf_block hf ha hr (Nat.le_of_add_right_le hroom)
        rw [← hgrown] at hroom hlen hkept
        refine .of_room (hgrown ▸ hoff) hn hroom ?_ hlen.ge hkept
        rw [hgrown]
        exact (allocSendBuf_live hl ha).mpr hr
  · have hgrown := grown_of_fits re ma hf hg
    have hroom : s.sendOffset + buf.length ≤ s.sendLen := by omega
    refine iff_of_true (.of_room ?_ hn ?_ ?_ ?_ ?_) (.inl hg) <;> rw [hgrown]
    · exact hroom
    · exact hl
    · exact hf.len_le

/-- The buffer as the constructor leaves it, with bytes waiting in it. -/
def waitingBytes (n : ℕ) : Uvcpp :=
  { create ⟨1, List.replicate clientBufferLen 0⟩ with sendOffset := n }

theorem bufferFits_waitingBytes {n : ℕ} (hn : n ≤ clientBufferLen) :
    (waitingBytes n).BufferFits :=
  ⟨hn, List.length_replicate.ge, (by decide : clientBufferLen < 2 ^ 32)⟩

/-- A full buffer grows for one byte more, as long as the block stays where it is. -/
theorem makesRoom_iff_example :
    MakesRoom (waitingBytes clientBufferLen) [7] ⟨true, 1, fun _ => 0⟩ ⟨true, 2, fun _ => 0⟩ :=
  (makesRoom_iff (bufferFits_waitingBytes le_rfl) rfl (by decide) (.inl rfl)).mpr
    (.inr ⟨fun _ => rfl, .inl (by decide)⟩)

/-- A thousand bytes wait, and for 350 more the buffer grows to two bytes less than that. -/
theorem not_makesRoom : ¬ ∀ (s : Uvcpp) (buf : List UInt8) (re ma : Answer), s.BufferFits →
    s.sendBufLive = true → buf.length + s.sendOffset < 2 ^ 31 → re.ok = true →
    MakesRoom s buf re ma := by
  intro h
  have hn : (List.replicate 350 (7 : UInt8)).length + (waitingBytes 1000).sendOffset
      < 2 ^ 31 := by
    rw [List.length_replicate]
    decide
  have hroom := (h (waitingBytes 1000) (List.replicate 350 7) ⟨true, 1, fun _ => 0⟩
    ⟨true, 2, fun _ => 0⟩ (bufferFits_waitingBytes (by decide)) rfl hn rfl).room
  revert hroom
  decide +kernel

end UvWrapper.Uvcpp
