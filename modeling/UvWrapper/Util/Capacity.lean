import UvWrapper.Util.Objects

/-! # Lengths near the limit of their type

`readmem` and the constructor from memory compute the capacity they ask for in
`unsigned long`. Where the rounded length, or its sum with the data, passes the limit of the
type, the capacity comes out too small and the copy is made nevertheless.
-/

namespace UvWrapper.Safebuffer

open Memory

variable {w len n : ℕ} {b b' : Safebuffer} {blk : Block} {mem : List UInt8} {ma re : Answer}

/-- The multiple of `DEFAULT_BUFFER_LEN` above a length, without a limit. -/
def rounded (len : ℕ) : ℕ := (len / defaultBufferLen + 1) * defaultBufferLen

theorem lt_rounded (len : ℕ) : len < rounded len ∧ rounded len ≤ len + 1024 := by
  unfold rounded defaultBufferLen
  omega

/-- Up to ten bits, a rounded length is nothing. -/
theorem rounded_mod_of_le (hw : w ≤ 10) (len : ℕ) : rounded len % 2 ^ w = 0 := by
  have hdvd : 2 ^ w ∣ defaultBufferLen := Nat.pow_dvd_pow 2 hw
  exact Nat.mod_eq_zero_of_dvd (Nat.dvd_mul_left_of_dvd hdvd _)

theorem le_pow_of_lt (hw : 10 < w) : 2048 ≤ 2 ^ w :=
  Nat.pow_le_pow_right (by decide : 0 < 2) hw

theorem add_rounded_mod_lt (d len : ℕ) (hd : d < 2 ^ w) (hl : 0 < len)
    (h : 2 ^ w ≤ d + rounded len) : (d + rounded len) % 2 ^ w < d + len := by
  rcases Nat.lt_or_ge 10 w with hw | hw
  · have hp := le_pow_of_lt hw
    have hr := (lt_rounded len).2
    rw [Nat.mod_eq_sub_mod h]
    have hm := Nat.mod_le (d + rounded len - 2 ^ w) (2 ^ w)
    omega
  · rw [Nat.add_mod, rounded_mod_of_le hw, Nat.add_zero, Nat.mod_mod, Nat.mod_eq_of_lt hd]
    omega

/-- The constructor's capacity, and that of `readmem` without a block, holds the payload. -/
theorem le_roundUp_iff : len ≤ roundUp w len ↔ len = 0 ∨ rounded len < 2 ^ w := by
  change len ≤ rounded len % 2 ^ w ↔ _
  constructor
  · intro h
    by_contra hn
    obtain ⟨h0, hr⟩ := not_or.mp hn
    have hlt := add_rounded_mod_lt (w := w) 0 len (Nat.pos_of_neZero _)
      (Nat.pos_of_ne_zero h0) (by omega)
    rw [Nat.zero_add, Nat.zero_add] at hlt
    omega
  · rintro (rfl | hr)
    · exact Nat.zero_le _
    · rw [Nat.mod_eq_of_lt hr]
      exact Nat.le_of_lt (lt_rounded len).1

theorem resize_lengths (h : (b.resize w n re).2 = true) :
    (b.resize w n re).1.bufferlen = max b.bufferlen n ∧
      (b.resize w n re).1.datalen = b.datalen := by
  unfold resize at h ⊢
  split
  · next hle => exact ⟨(Nat.max_eq_left hle).symm, rfl⟩
  · next hlt =>
    rw [if_neg hlt] at h
    cases hr : realloc re b.pbuffer n with
    | none => simp [hr] at h
    | some blk => exact ⟨(Nat.max_eq_right (Nat.le_of_lt (Nat.not_le.mp hlt))).symm, rfl⟩

theorem readmem_lengths (hb : b.pbuffer = some blk) (hd : b.datalen ≤ b.bufferlen)
    (hB : b.bufferlen < 2 ^ w) (h : b.readmem w mem ma re = some (b', true)) :
    b'.datalen = ulong w (b.datalen + mem.length) ∧
      b'.bufferlen = if mem.length < b.bufferlen - b.datalen then b.bufferlen
        else max b.bufferlen (ulong w (b.datalen + roundUp w mem.length)) := by
  have hsub := ulongSub_of_le hd hB
  split
  · next hroom =>
    rw [readmem_of_room hb (hsub ▸ hroom)] at h
    obtain ⟨rfl, -⟩ := Prod.mk.inj (Option.some.inj h)
    exact ⟨rfl, rfl⟩
  · next hroom =>
    rw [readmem_of_growth hb (hsub ▸ Nat.not_lt.mp hroom)] at h
    dsimp only at h
    split at h
    · next ht =>
      obtain ⟨rfl, -⟩ := Prod.mk.inj (Option.some.inj h)
      obtain ⟨hl, hd'⟩ := resize_lengths ht
      exact ⟨congrArg (fun x => ulong w (x + mem.length)) hd', hl⟩
    · cases h

theorem resize_returns (hok : re.ok = true) : (b.resize w n re).2 = true := by
  obtain ⟨new, hr⟩ := realloc_ok (p := b.pbuffer) (n := n) hok
  unfold resize
  split
  · rfl
  · rw [hr]

theorem readmem_returns (hb : b.pbuffer = some blk) (mem : List UInt8) (ma : Answer)
    (hok : re.ok = true) :
    ∃ b', b.readmem w mem ma re = some (b', true) := by
  rcases Nat.lt_or_ge mem.length (ulongSub w b.bufferlen b.datalen) with hroom | hroom
  · exact ⟨_, readmem_of_room hb hroom⟩
  · rw [readmem_of_growth hb hroom]
    simp only [resize_returns hok, if_true]
    exact ⟨_, rfl⟩

theorem readmem_of_null (hb : b.pbuffer = none) : b.readmem w mem ma re =
    (malloc ma (roundUp w mem.length)).bind fun blk =>
      Safebuffer.readmem w { b with
        pbuffer := some { blk with bytes := memset blk.bytes 0 0 (roundUp w mem.length) }
        bufferlen := roundUp w mem.length
        datalen := 0 } mem ma re := by
  simp only [Safebuffer.readmem, ensureMemory, hb]
  cases malloc ma (roundUp w mem.length) <;> rfl

/-- Wherever `readmem` of `len` bytes returns `true`, they have all been added, and the
capacity holds them. -/
def ReadmemFits (w : ℕ) (b : Safebuffer) (len : ℕ) : Prop :=
  ∀ mem ma re b', mem.length = len → b.readmem w mem ma re = some (b', true) →
    b.datalen + len ≤ b'.bufferlen ∧ b'.datalen = b.datalen + len

/-- The constructor from `len` bytes allocates at least as many. -/
def ConstructorFits (w len : ℕ) : Prop :=
  ∀ mem junk ma b, mem.length = len → ofMem w mem junk ma = some b → len ≤ b.bufferlen

theorem ulong_add_roundUp (d : ℕ) : ulong w (d + roundUp w len) = (d + rounded len) % 2 ^ w := by
  change (d + rounded len % 2 ^ w) % 2 ^ w = _
  rw [Nat.add_mod_mod]

theorem readmemFits_of_some (hb : b.pbuffer = some blk) (hd : b.datalen ≤ b.bufferlen)
    (hB : b.bufferlen < 2 ^ w) : ReadmemFits w b len ↔
      len ≤ b.bufferlen - b.datalen ∨ b.datalen + rounded len < 2 ^ w := by
  have hlt := (lt_rounded len).1
  constructor
  · intro h
    by_contra hn
    obtain ⟨hfree, hround⟩ := not_or.mp hn
    obtain ⟨b', hr⟩ := readmem_returns (w := w) hb (List.replicate len 0)
      ⟨true, 0, fun _ => 0⟩ (show (Answer.mk true 0 fun _ => 0).ok = true from rfl)
    obtain ⟨hfit, -⟩ := h _ _ _ b' List.length_replicate hr
    have hl := (readmem_lengths hb hd hB hr).2
    have hwrap := add_rounded_mod_lt (w := w) b.datalen len (by omega)
      (by omega) (by omega)
    rw [List.length_replicate, if_neg (by omega), ulong_add_roundUp] at hl
    omega
  · rintro h mem ma re b' rfl hr
    obtain ⟨hd', hl⟩ := readmem_lengths hb hd hB hr
    have hfit : b.datalen + mem.length ≤ b'.bufferlen ∧ b'.bufferlen < 2 ^ w := by
      rw [hl, ulong_add_roundUp]
      split
      · omega
      · rcases h with h | h
        · have := Nat.mod_lt (b.datalen + rounded mem.length) (Nat.two_pow_pos w)
          omega
        · rw [Nat.mod_eq_of_lt h]
          omega
    refine ⟨hfit.1, hd'.trans (ulong_of_lt ?_)⟩
    omega

theorem readmemFits_of_none (hb : b.pbuffer = none) (hl : len < 2 ^ w) :
    ReadmemFits w b len ↔ b.datalen = 0 ∧ (len = 0 ∨ rounded len < 2 ^ w) := by
  have hR : roundUp w len < 2 ^ w := Nat.mod_lt _ (Nat.two_pow_pos w)
  have hlen : ∀ mem ma re b', mem.length = len → b.readmem w mem ma re = some (b', true) →
      b'.datalen = len ∧ b'.bufferlen = roundUp w len := by
    rintro mem ma re b' rfl hr
    rw [readmem_of_null hb] at hr
    obtain ⟨blk, -, hr⟩ := Option.bind_eq_some_iff.mp hr
    obtain ⟨hd', hl'⟩ := readmem_lengths rfl (Nat.zero_le _) hR hr
    dsimp only at hd' hl'
    rw [Nat.zero_add] at hd' hl'
    rw [ulong_of_lt hR, Nat.max_self, ite_self] at hl'
    exact ⟨hd'.trans (ulong_of_lt hl), hl'⟩
  rw [← le_roundUp_iff]
  constructor
  · intro h
    obtain ⟨b', hr⟩ : ∃ b', b.readmem w (List.replicate len 0) ⟨true, 0, fun _ => 0⟩
        ⟨true, 0, fun _ => 0⟩ = some (b', true) := by
      rw [readmem_of_null hb]
      exact readmem_returns rfl _ _ rfl
    obtain ⟨hfit, hd⟩ := h _ _ _ b' List.length_replicate hr
    obtain ⟨hd', hl'⟩ := hlen _ _ _ b' List.length_replicate hr
    omega
  · rintro ⟨h0, h⟩ mem ma re b' hm hr
    obtain ⟨hd', hl'⟩ := hlen _ _ _ b' hm hr
    omega

theorem constructorFits_iff : ConstructorFits w len ↔ len = 0 ∨ rounded len < 2 ^ w := by
  rw [← le_roundUp_iff]
  constructor
  · intro h
    exact h (List.replicate len 0) 0 ⟨true, 0, fun _ => 0⟩ _ List.length_replicate
      (by simp only [ofMem, malloc, List.length_replicate, if_true, Option.map_some]; rfl)
  · rintro h mem junk ma b rfl hb
    obtain ⟨blk, -, rfl⟩ := Option.map_eq_some_iff.mp hb
    exact h

/-- The condition on `readmem`. With a block: the free space suffices, or the sum of the data
and the rounded length is below the limit of the type. Without one: there is no data, and the
rounded length is below the limit. -/
def RoomFor (w : ℕ) (b : Safebuffer) (len : ℕ) : Prop :=
  match b.pbuffer with
  | some _ => len ≤ b.bufferlen - b.datalen ∨ b.datalen + rounded len < 2 ^ w
  | none => b.datalen = 0 ∧ (len = 0 ∨ rounded len < 2 ^ w)

/-- Exactly under these conditions the capacity arithmetic does not wrap unnoticed. -/
theorem capacity_iff (hd : b.datalen ≤ b.bufferlen) (hB : b.bufferlen < 2 ^ w)
    (hl : len < 2 ^ w) : (ReadmemFits w b len ↔ RoomFor w b len) ∧
      (ConstructorFits w len ↔ len = 0 ∨ rounded len < 2 ^ w) := by
  constructor
  · unfold RoomFor
    cases hb : b.pbuffer with
    | some blk => exact readmemFits_of_some hb hd hB
    | none => exact readmemFits_of_none hb hl
  · exact constructorFits_iff

/-- A buffer with one byte of data in a block of two, and five more bytes. -/
theorem capacity_iff_example :
    ReadmemFits 32 ⟨some ⟨1, [7, 0]⟩, 2, 1, 0⟩ 5 ∧ ConstructorFits 32 5 := by
  obtain ⟨hr, hc⟩ := capacity_iff (w := 32) (b := ⟨some ⟨1, [7, 0]⟩, 2, 1, 0⟩)
    (by decide) (by decide) (show 5 < 2 ^ 32 by decide)
  exact ⟨hr.mpr (.inr (by decide)), hc.mpr (.inr (by decide))⟩

/-- A payload one kilobyte short of the limit is copied into a block of no bytes. -/
theorem not_capacity : ¬ ∀ (b : Safebuffer) (len : ℕ), b.datalen ≤ b.bufferlen →
    b.bufferlen < 2 ^ 32 → len < 2 ^ 32 → ReadmemFits 32 b len ∧ ConstructorFits 32 len := by
  intro h
  have hc := (h ⟨none, 0, 0, 0⟩ 4294966272 (by decide) (by decide) (by decide)).2
  rcases constructorFits_iff.mp hc with h0 | hr
  · exact absurd h0 (by decide)
  · exact absurd hr (by decide)

end UvWrapper.Safebuffer
