import UvWrapper.Util.Failure

/-! # The copy of a payload into an empty buffer

A sender copies its payload into the empty buffer of a record by one `readmem`. Whether the
payload is stored is settled by what the call finds: the length of the payload, the capacity of
the buffer and the answers of the allocator.
-/

namespace UvWrapper.Safebuffer

open Memory

variable {w : ℕ} {b b' : Safebuffer} {mem : List UInt8} {ma re : Answer} {ok : Bool}

/-- A call of `readmem`: the buffer, the payload and what the allocator answers. -/
structure Copy where
  buffer : Safebuffer
  mem : List UInt8
  ma : Answer
  re : Answer

namespace Copy

variable {c : Copy}

def result (w : ℕ) (c : Copy) : Option (Safebuffer × Bool) := c.buffer.readmem w c.mem c.ma c.re

/-- `readmem` has returned `true`, and the copy has not run over the end of the block. -/
def Stored (w : ℕ) (c : Copy) : Prop :=
  ∃ b, c.result w = some (b, true) ∧ c.buffer.datalen + c.mem.length ≤ b.bufferlen

/-- Where `realloc` is asked it grants a larger block, and the rounded length of the payload is
below the limit of its type or not needed. -/
def Granted (w : ℕ) (c : Copy) : Prop :=
  (c.re.ok = true ∨ ¬ c.buffer.Grows w c.mem.length) ∧ c.buffer.RoomFor w c.mem.length

/-- The buffer was empty, and `b` is what the call has left. -/
structure Leaves (w : ℕ) (c : Copy) (b : Safebuffer) : Prop where
  empty : c.buffer.datalen = 0
  result : ∃ ok, c.result w = some (b, ok)

end Copy

/-- An empty buffer has room for a payload exactly if the capacity it ends with is enough. -/
theorem roomFor_iff (hd : b.datalen = 0) (h : b.readmem w mem ma re = some (b', true)) :
    b.RoomFor w mem.length ↔ mem.length ≤ b'.bufferlen := by
  have hround : mem.length ≤ roundUp w mem.length ↔ mem.length = 0 ∨ rounded mem.length < 2 ^ w :=
    le_roundUp_iff
  unfold RoomFor
  cases hb : b.pbuffer with
  | none =>
    rw [readmem_of_fresh hb] at h
    obtain ⟨blk, -, he⟩ := Option.map_eq_some_iff.mp h
    obtain ⟨rfl, -⟩ := Prod.mk.inj he
    exact (and_iff_right hd).trans hround.symm
  | some blk =>
    dsimp only
    rw [hd, Nat.zero_add, Nat.sub_zero]
    have hle : ulongSub w b.bufferlen b.datalen ≤ b.bufferlen := by
      rw [hd, ulongSub, Nat.sub_zero, ulong, Nat.add_mod_right]
      exact Nat.mod_le _ _
    rcases Nat.lt_or_ge mem.length (ulongSub w b.bufferlen b.datalen) with hroom | hroom
    · rw [readmem_of_room hb hroom] at h
      obtain ⟨rfl, -⟩ := Prod.mk.inj (Option.some.inj h)
      have hfit : mem.length ≤ b.bufferlen := Nat.le_of_lt (Nat.lt_of_lt_of_le hroom hle)
      exact iff_of_true (.inl hfit) hfit
    · rw [readmem_of_growth hb hroom] at h
      dsimp only at h
      split at h
      · next ht =>
        obtain ⟨rfl, -⟩ := Prod.mk.inj (Option.some.inj h)
        have hlen : (b.resize w (ulong w (b.datalen + roundUp w mem.length)) re).1.bufferlen =
            max b.bufferlen (roundUp w mem.length) := by
          rw [(resize_lengths ht).1, hd, Nat.zero_add, roundUp, ulong, ulong, Nat.mod_mod]
        have hmax : mem.length ≤ max b.bufferlen (roundUp w mem.length) ↔
            mem.length ≤ b.bufferlen ∨ mem.length ≤ roundUp w mem.length := by omega
        change _ ↔ mem.length ≤ (b.resize w _ re).1.bufferlen
        rw [hlen, hmax, hround]
        omega
      · cases h

theorem length_covered_le (b : Safebuffer) (base : Option ℕ) :
    (b.covered (uvBufInit base b.datalen)).length ≤ uint b.datalen := by
  unfold covered
  split
  · split
    · exact List.length_take_le _ _
    · exact Nat.zero_le _
  · exact Nat.zero_le _

namespace Copy

variable {c : Copy}

/-- The payload is stored exactly if the allocator granted what was needed and no length passed
its limit. -/
theorem Leaves.stored_iff (h : c.Leaves w b) : c.Stored w ↔ c.Granted w := by
  obtain ⟨hd, ok, hr⟩ := h
  have hr' : c.buffer.readmem w c.mem c.ma c.re = some (b, ok) := hr
  constructor
  · rintro ⟨b', hs, hfit⟩
    rw [hd, Nat.zero_add] at hfit
    exact ⟨readmem_granted hs, (roomFor_iff hd hs).mpr hfit⟩
  · rintro ⟨hg, hroom⟩
    cases ok with
    | false =>
      obtain ⟨hgrows, hok, -⟩ := readmem_failed hr'
      rcases hg with hg | hg
      · exact (Bool.false_ne_true (hok.symm.trans hg)).elim
      · exact (hg hgrows).elim
    | true =>
      refine ⟨b, hr, ?_⟩
      rw [hd, Nat.zero_add]
      exact (roomFor_iff hd hr').mp hroom

/-- Of a stored payload a `uv_buf_t` covers all, exactly if its length is one for
`uv_buf_init`. -/
theorem Leaves.covered_iff (h : c.Leaves w b) (hs : c.Stored w) :
    b.covered (uvBufInit (b.pbuffer.map Block.addr) b.datalen) = c.mem ↔
      c.mem.length < 2 ^ w ∧ c.mem.length < 2 ^ 32 := by
  obtain ⟨hd, ok, hr⟩ := h
  obtain ⟨b', hs, -⟩ := hs
  obtain ⟨rfl, rfl⟩ := Prod.mk.inj (Option.some.inj (hs.symm.trans hr))
  obtain ⟨d, hb, -, hd', rfl⟩ := readmem_store hs
  rw [hd, ite_self] at hd'
  have hlen : (d.store w c.mem).datalen = ulong w c.mem.length := by
    simp only [store, hd', Nat.zero_add]
  constructor
  · intro hc
    have hle := length_covered_le (d.store w c.mem) ((d.store w c.mem).pbuffer.map Block.addr)
    rw [hc, hlen] at hle
    constructor
    · have hmod := Nat.le_trans hle (Nat.mod_le _ _)
      exact Nat.lt_of_le_of_lt hmod (Nat.mod_lt _ (Nat.two_pow_pos w))
    · exact Nat.lt_of_le_of_lt hle (Nat.mod_lt _ (by decide))
  · rintro ⟨hw, hu⟩
    have hcontents : (d.store w c.mem).contents = c.mem := contents_store hb hd' hw
    have huint : uint (d.store w c.mem).datalen = (d.store w c.mem).datalen := by
      rw [hlen, ulong_of_lt hw]
      exact Nat.mod_eq_of_lt hu
    have hstored : (d.store w c.mem).pbuffer ≠ none := store_pbuffer hb
    obtain ⟨blk, hblk⟩ := Option.ne_none_iff_exists'.mp hstored
    simpa only [covered, contents, uvBufInit, hblk, huint, Option.map_some, if_true] using hcontents

end Copy

end UvWrapper.Safebuffer
