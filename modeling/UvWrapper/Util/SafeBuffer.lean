import UvWrapper.Lib.Memory
import UvWrapper.Libuv

/-! # The growable buffer

The class `safebuffer`: a block, its length, the length of the data at its front and a read
offset. Lengths are `unsigned long`, whose width `w` is a parameter. A failed `assert` ends
the program, which is `none`.
-/

namespace UvWrapper

open Memory

def defaultBufferLen : ℕ := 1024

def ulong (w n : ℕ) : ℕ := n % 2 ^ w

/-- Subtraction in `unsigned long`, for values that fit. -/
def ulongSub (w a b : ℕ) : ℕ := ulong w (a + (2 ^ w - b))

/-- The fields of `safebuffer`; a null `m_pbuffer` is `none`. -/
structure Safebuffer where
  pbuffer : Option Block
  bufferlen : ℕ
  datalen : ℕ
  offset : ℕ
  deriving DecidableEq

namespace Safebuffer

def create (ma : Answer) : Option Safebuffer :=
  (malloc ma defaultBufferLen).map fun blk =>
    { pbuffer := some { blk with bytes := memset blk.bytes 0 0 defaultBufferLen }
      bufferlen := defaultBufferLen
      datalen := 0
      offset := 0 }

def clearMem (b : Safebuffer) : Safebuffer :=
  { b with
    pbuffer := b.pbuffer.map fun blk => { blk with bytes := memset blk.bytes 0 0 b.datalen }
    datalen := 0
    offset := 0 }

def resize (w : ℕ) (b : Safebuffer) (len : ℕ) (re : Answer) : Safebuffer × Bool :=
  if len ≤ b.bufferlen then (b, true)
  else
    match realloc re b.pbuffer len with
    | none => ({ b with pbuffer := none, bufferlen := 0, datalen := 0 }, false)
    | some blk =>
      ({ b with
          pbuffer := some { blk with
            bytes := memset blk.bytes b.datalen 0 (ulongSub w len b.datalen) }
          bufferlen := len }, true)

def roundUp (w len : ℕ) : ℕ := ulong w ((len / defaultBufferLen + 1) * defaultBufferLen)

/-- The first block of `readmem`. -/
def ensureMemory (w : ℕ) (b : Safebuffer) (len : ℕ) (ma : Answer) : Option Safebuffer :=
  match b.pbuffer with
  | some _ => some b
  | none =>
    (malloc ma (roundUp w len)).map fun blk =>
      { b with
        pbuffer := some { blk with bytes := memset blk.bytes 0 0 (roundUp w len) }
        bufferlen := roundUp w len
        datalen := 0 }

/-- The last lines of `readmem`. -/
def store (w : ℕ) (b : Safebuffer) (mem : List UInt8) : Safebuffer :=
  { b with
    pbuffer := b.pbuffer.map fun blk => { blk with bytes := memcpy blk.bytes b.datalen mem }
    datalen := ulong w (b.datalen + mem.length) }

def readmem (w : ℕ) (b : Safebuffer) (mem : List UInt8) (ma re : Answer) :
    Option (Safebuffer × Bool) :=
  (b.ensureMemory w mem.length ma).map fun b₁ =>
    let (b₂, ok) :=
      if ulongSub w b₁.bufferlen b₁.datalen ≤ mem.length then
        b₁.resize w (ulong w (b₁.datalen + roundUp w mem.length)) re
      else (b₁, true)
    if ok then (b₂.store w mem, true) else (b₂, false)

def contents (b : Safebuffer) : List UInt8 :=
  match b.pbuffer with
  | some blk => blk.bytes.take b.datalen
  | none => []

/-- The bytes of a buffer that a `uv_buf_t` covers. -/
def covered (b : Safebuffer) (buf : UvBuf) : List UInt8 :=
  match b.pbuffer with
  | some blk => if buf.base = some blk.addr then blk.bytes.take buf.len else []
  | none => []

/-- There is a block of the recorded length, and the data lies inside it. -/
structure WellFormed (w : ℕ) (b : Safebuffer) : Prop where
  block : ∃ blk, b.pbuffer = some blk ∧ blk.bytes.length = b.bufferlen
  datalen_le : b.datalen ≤ b.bufferlen
  bufferlen_lt : b.bufferlen < 2 ^ w

variable {w : ℕ} {b b' : Safebuffer} {mem : List UInt8} {ma re : Answer} {len : ℕ}

theorem ulong_of_lt (h : len < 2 ^ w) : ulong w len = len := Nat.mod_eq_of_lt h

theorem ulongSub_of_le {x y : ℕ} (h : y ≤ x) (hx : x < 2 ^ w) : ulongSub w x y = x - y := by
  have he : x + (2 ^ w - y) = x - y + 2 ^ w := by omega
  rw [ulongSub, he, ulong, Nat.add_mod_right, Nat.mod_eq_of_lt (by omega)]

theorem lt_roundUp (h : len + defaultBufferLen < 2 ^ w) : len < roundUp w len ∧
    roundUp w len ≤ len + defaultBufferLen := by
  have hd : (len / defaultBufferLen + 1) * defaultBufferLen ≤ len + defaultBufferLen := by
    simp only [defaultBufferLen]; omega
  rw [roundUp, ulong_of_lt (by omega)]
  constructor
  · simp only [defaultBufferLen]; omega
  · exact hd

theorem WellFormed.length_contents (h : b.WellFormed w) : b.contents.length = b.datalen := by
  obtain ⟨blk, hb, hl⟩ := h.block
  have := h.datalen_le
  simp only [contents, hb, List.length_take]
  omega

theorem WellFormed.covered (h : b.WellFormed w) :
    b.covered (uvBufInit (b.pbuffer.map Block.addr) b.datalen) =
      b.contents.take (uint b.contents.length) := by
  obtain ⟨blk, hb, -⟩ := h.block
  have hle : uint b.datalen ≤ b.datalen := Nat.mod_le _ _
  rw [h.length_contents]
  simp only [Safebuffer.covered, contents, uvBufInit, hb, Option.map_some, if_true,
    List.take_take, Nat.min_eq_left hle]

theorem wellFormed_create (hw : defaultBufferLen < 2 ^ w) (h : create ma = some b) :
    b.WellFormed w ∧ b.datalen = 0 := by
  obtain ⟨blk, hm, rfl⟩ := Option.map_eq_some_iff.mp h
  exact ⟨⟨⟨_, rfl, by simp [length_malloc hm]⟩, Nat.zero_le _, hw⟩, rfl⟩

theorem WellFormed.clearMem (h : b.WellFormed w) : b.clearMem.WellFormed w := by
  obtain ⟨blk, hb, hl⟩ := h.block
  have := h.datalen_le
  refine ⟨⟨{ blk with bytes := memset blk.bytes 0 0 b.datalen }, by simp [Safebuffer.clearMem, hb],
    ?_⟩, Nat.zero_le _, h.bufferlen_lt⟩
  rw [length_memset (by omega), hl]
  rfl

theorem WellFormed.resize (h : b.WellFormed w) (hl : len < 2 ^ w) (hok : re.ok = true) :
    (b.resize w len re).2 = true ∧ (b.resize w len re).1.WellFormed w ∧
      (b.resize w len re).1.datalen = b.datalen ∧ (b.resize w len re).1.contents = b.contents ∧
      len ≤ (b.resize w len re).1.bufferlen := by
  unfold Safebuffer.resize
  rcases Nat.lt_or_ge b.bufferlen len with hlt | hle
  · rw [if_neg (Nat.not_le.mpr hlt)]
    obtain ⟨old, hb, ho⟩ := h.block
    obtain ⟨blk, hr⟩ := realloc_ok (p := b.pbuffer) (n := len) hok
    have hlen := length_realloc hr
    have hd := h.datalen_le
    have hkeep : blk.bytes.take b.datalen = old.bytes.take b.datalen :=
      take_realloc_of_le (hb ▸ hr) (by omega) (by omega)
    have hs : ulongSub w len b.datalen = len - b.datalen := ulongSub_of_le (by omega) hl
    rw [hr]
    refine ⟨rfl, ⟨⟨_, rfl, ?_⟩, ?_, hl⟩, rfl, ?_, Nat.le_refl _⟩
    · simp only [hs]
      rw [length_memset (by omega), hlen]
    · simp only; omega
    · simp only [contents, hb]
      rw [take_memset_below (Nat.le_refl _) (by rw [hlen]; omega), hkeep]
  · rw [if_pos hle]
    exact ⟨rfl, h, rfl, rfl, hle⟩

theorem WellFormed.store (h : b.WellFormed w) (mem : List UInt8)
    (hl : b.datalen + mem.length ≤ b.bufferlen) :
    (b.store w mem).WellFormed w ∧ (b.store w mem).contents = b.contents ++ mem := by
  obtain ⟨blk, hb, ho⟩ := h.block
  have hlt := h.bufferlen_lt
  have hu : ulong w (b.datalen + mem.length) = b.datalen + mem.length := ulong_of_lt (by omega)
  refine ⟨⟨⟨{ blk with bytes := memcpy blk.bytes b.datalen mem }, ?_, ?_⟩, ?_, hlt⟩, ?_⟩
  · simp only [Safebuffer.store, hb, Option.map_some]
  · exact (length_memcpy (by omega)).trans ho
  · simpa only [Safebuffer.store, hu] using hl
  · simp only [Safebuffer.store, contents, hb, Option.map_some, hu]
    exact take_memcpy (by omega)

/-- A buffer is well formed after a copy exactly if that has not run over the end of the
block. -/
theorem WellFormed.store_iff (h : b.WellFormed w) (mem : List UInt8) :
    (b.store w mem).WellFormed w ↔ b.datalen + mem.length ≤ b.bufferlen := by
  constructor
  · intro hs
    obtain ⟨blk, hb, hl⟩ := h.block
    obtain ⟨blk', hb', hl'⟩ := hs.block
    obtain rfl : { blk with bytes := memcpy blk.bytes b.datalen mem } = blk' := by
      simpa only [Safebuffer.store, hb, Option.map_some, Option.some.injEq] using hb'
    rw [← hl]
    exact (length_memcpy_iff (hl ▸ h.datalen_le)).mp (hl'.trans hl.symm)
  · exact fun hl => (h.store mem hl).1

theorem readmem_isSome (b : Safebuffer) (mem : List UInt8) (re : Answer) (hok : ma.ok = true) :
    ∃ b' ok, b.readmem w mem ma re = some (b', ok) := by
  obtain ⟨b₁, hens⟩ : ∃ b₁, b.ensureMemory w mem.length ma = some b₁ := by
    unfold ensureMemory
    split
    · exact ⟨b, rfl⟩
    · simp [malloc, hok]
  exact ⟨_, _, by simp only [Safebuffer.readmem, hens, Option.map_some]; rfl⟩

theorem readmem_of_room {blk : Block} (hb : b.pbuffer = some blk)
    (h : mem.length < ulongSub w b.bufferlen b.datalen) :
    b.readmem w mem ma re = some (b.store w mem, true) := by
  have hens : b.ensureMemory w mem.length ma = some b := by simp only [ensureMemory, hb]
  simp only [Safebuffer.readmem, hens, Option.map_some, if_neg (Nat.not_le.mpr h), if_true]

theorem readmem_of_growth {blk : Block} (hb : b.pbuffer = some blk)
    (h : ulongSub w b.bufferlen b.datalen ≤ mem.length) :
    b.readmem w mem ma re =
      let r := b.resize w (ulong w (b.datalen + roundUp w mem.length)) re
      some (if r.2 then (r.1.store w mem, true) else (r.1, false)) := by
  have hens : b.ensureMemory w mem.length ma = some b := by simp only [ensureMemory, hb]
  simp only [Safebuffer.readmem, hens, Option.map_some, if_pos h]

theorem WellFormed.readmem (h : b.WellFormed w) (mem : List UInt8) (ma : Answer)
    (hl : b.datalen + mem.length + defaultBufferLen < 2 ^ w) (hok : re.ok = true) :
    ∃ b', b.readmem w mem ma re = some (b', true) ∧ b'.WellFormed w ∧
      b'.contents = b.contents ++ mem := by
  obtain ⟨blk, hb, -⟩ := h.block
  have hsub := ulongSub_of_le h.datalen_le h.bufferlen_lt
  rcases Nat.lt_or_ge mem.length (ulongSub w b.bufferlen b.datalen) with hroom | hroom
  · obtain ⟨hwf', hc'⟩ := h.store mem (by omega)
    exact ⟨_, readmem_of_room hb hroom, hwf', hc'⟩
  · obtain ⟨hr, hr'⟩ := lt_roundUp (show mem.length + defaultBufferLen < 2 ^ w by omega)
    have hlt : b.datalen + roundUp w mem.length < 2 ^ w := by omega
    have hu : ulong w (b.datalen + roundUp w mem.length) = b.datalen + roundUp w mem.length :=
      ulong_of_lt hlt
    obtain ⟨ht, hwf, hd, hc, hle⟩ := h.resize hlt hok
    obtain ⟨hwf', hc'⟩ := hwf.store mem (by omega)
    simp only [readmem_of_growth hb hroom, hu, ht, if_true]
    exact ⟨_, rfl, hwf', hc'.trans (by rw [hc])⟩

end Safebuffer

end UvWrapper
