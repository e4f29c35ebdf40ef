import UvWrapper.Lib.Update
import UvWrapper.Util.Objects

/-! # Buffers as byte lists

A buffer stands for the bytes of its data. Reading memory into it appends to the list,
clearing empties it, copying and assigning copy the other list, resizing changes nothing;
behind the data the block is zero up to its end, and there is at least one such byte.
-/

namespace UvWrapper

open Function Memory Transition

namespace Safebuffer

variable {w : ℕ} {b b' c : Safebuffer} {l l' mem : List UInt8} {ma re : Answer} {n junk : ℕ}

/-- The block is the list with zeros up to the recorded length, at least one of them. -/
structure Holds (w : ℕ) (b : Safebuffer) (l : List UInt8) : Prop where
  block : ∃ a, b.pbuffer = some ⟨a, l ++ List.replicate (b.bufferlen - l.length) 0⟩
  datalen_eq : b.datalen = l.length
  length_lt : l.length < b.bufferlen
  bufferlen_lt : b.bufferlen < 2 ^ w

theorem Holds.contents (h : b.Holds w l) : b.contents = l := by
  obtain ⟨a, hb⟩ := h.block
  simp only [Safebuffer.contents, hb, h.datalen_eq]
  exact List.take_left

theorem holds_construct (hn : 1 ≤ n) (hw : n < 2 ^ w) (h : construct n ma = some b) :
    b.Holds w [] ∧ b.addr = some ma.addr := by
  obtain ⟨blk, hm, rfl⟩ := Option.map_eq_some_iff.mp h
  have hl : blk.bytes.length = n := length_malloc hm
  have ha : blk.addr = ma.addr := addr_malloc hm
  refine ⟨⟨⟨blk.addr, ?_⟩, rfl, hn, hw⟩, ?_⟩
  · rw [memset_all hl]
    rfl
  · exact congrArg some ha

theorem Holds.copy (h : b.Holds w l) (hc : b.copy junk ma = some c) :
    c.Holds w l ∧ c.addr = some ma.addr := by
  obtain ⟨blk, hm, rfl⟩ := Option.map_eq_some_iff.mp hc
  have hl : blk.bytes.length = b.bufferlen := length_malloc hm
  have ha : blk.addr = ma.addr := addr_malloc hm
  refine ⟨⟨⟨blk.addr, ?_⟩, h.datalen_eq, h.length_lt, h.bufferlen_lt⟩, ?_⟩
  · have hz := memcpy_padded (c := l) (k := b.bufferlen) (v := 0) []
    rw [memset_all hl, h.contents]
    simpa using hz
  · exact congrArg some ha

theorem holds_ofMem (hl : mem.length + defaultBufferLen < 2 ^ w)
    (h : ofMem w mem junk ma = some b) : b.Holds w mem ∧ b.addr = some ma.addr := by
  obtain ⟨blk, hm, rfl⟩ := Option.map_eq_some_iff.mp h
  have hb : blk.bytes.length = roundUp w mem.length := length_malloc hm
  have ha : blk.addr = ma.addr := addr_malloc hm
  obtain ⟨hr, hr'⟩ := lt_roundUp hl
  refine ⟨⟨⟨blk.addr, ?_⟩, rfl, hr, Nat.lt_of_le_of_lt hr' hl⟩, ?_⟩
  · have hz := memcpy_padded (c := mem) (k := roundUp w mem.length) (v := 0) []
    rw [memset_all hb]
    simpa using hz
  · exact congrArg some ha

theorem Holds.clearMem (h : b.Holds w l) :
    b.clearMem.Holds w [] ∧ b.clearMem.addr = b.addr := by
  obtain ⟨a, hb⟩ := h.block
  have hlt := h.length_lt
  refine ⟨⟨⟨a, ?_⟩, rfl, Nat.zero_lt_of_lt hlt, h.bufferlen_lt⟩, ?_⟩
  · have hk : l.length + (b.bufferlen - l.length) = b.bufferlen := by omega
    simp only [Safebuffer.clearMem, hb, h.datalen_eq, Option.map_some, memset_padded, hk]
    rfl
  · simp only [addr, Safebuffer.clearMem, hb, Option.map_some]

theorem Holds.resize (h : b.Holds w l) (n : ℕ) (re : Answer) (hn : n < 2 ^ w) (hok : re.ok = true) :
    (b.resize w n re).2 = true ∧ (b.resize w n re).1.Holds w l ∧
      n ≤ (b.resize w n re).1.bufferlen ∧
      ((b.resize w n re).1.addr = b.addr ∨ (b.resize w n re).1.addr = some re.addr) := by
  unfold Safebuffer.resize
  rcases Nat.lt_or_ge b.bufferlen n with hlt | hle
  · obtain ⟨a, hb⟩ := h.block
    obtain ⟨blk, hr⟩ := realloc_ok (p := b.pbuffer) (n := n) hok
    have hll := h.length_lt
    have hlen : blk.bytes.length = n := length_realloc hr
    have ha : blk.addr = re.addr := addr_realloc hr
    have hkeep : blk.bytes.take l.length = l := by
      rw [take_realloc_of_le (hb ▸ hr) (by simp) (by omega)]
      exact List.take_left
    have hs : ulongSub w n l.length = n - l.length := ulongSub_of_le (by omega) hn
    rw [if_neg (Nat.not_le.mpr hlt), hr]
    refine ⟨rfl, ⟨⟨blk.addr, ?_⟩, h.datalen_eq, Nat.lt_trans hll hlt, hn⟩, Nat.le_refl _, .inr ?_⟩
    · dsimp only
      rw [h.datalen_eq, hs, memset_tail (by omega), hkeep]
    · exact congrArg some ha
  · rw [if_pos hle]
    exact ⟨rfl, h, hle, .inl rfl⟩

theorem Holds.store (h : b.Holds w l) (mem : List UInt8)
    (hroom : l.length + mem.length < b.bufferlen) :
    (b.store w mem).Holds w (l ++ mem) ∧ (b.store w mem).addr = b.addr := by
  obtain ⟨a, hb⟩ := h.block
  have hw := h.bufferlen_lt
  have hlen : (l ++ mem).length = l.length + mem.length := List.length_append
  refine ⟨⟨⟨a, ?_⟩, ?_, ?_, hw⟩, ?_⟩
  · have hk : b.bufferlen - (l ++ mem).length = b.bufferlen - l.length - mem.length := by omega
    simp only [Safebuffer.store, hb, h.datalen_eq, Option.map_some, memcpy_padded, hk]
  · simp only [Safebuffer.store, h.datalen_eq, hlen]
    exact ulong_of_lt (Nat.lt_trans hroom hw)
  · rw [hlen]
    exact hroom
  · simp only [addr, Safebuffer.store, hb, Option.map_some]

theorem Holds.readmem (h : b.Holds w l) (mem : List UInt8) (ma re : Answer)
    (hl : l.length + mem.length + defaultBufferLen < 2 ^ w) (hok : re.ok = true) :
    ∃ b', b.readmem w mem ma re = some (b', true) ∧ b'.Holds w (l ++ mem) ∧
      (b'.addr = b.addr ∨ b'.addr = some re.addr) := by
  obtain ⟨a, hb⟩ := h.block
  have hd := h.datalen_eq
  have hlt := h.length_lt
  have hsub : ulongSub w b.bufferlen b.datalen = b.bufferlen - l.length := by
    rw [hd]
    exact ulongSub_of_le (Nat.le_of_lt hlt) h.bufferlen_lt
  rcases Nat.lt_or_ge mem.length (ulongSub w b.bufferlen b.datalen) with hroom | hroom
  · obtain ⟨hs, ha⟩ := h.store mem (by omega)
    exact ⟨_, readmem_of_room hb hroom, hs, .inl ha⟩
  · obtain ⟨hr, hr'⟩ := lt_roundUp (show mem.length + defaultBufferLen < 2 ^ w by omega)
    have hu : ulong w (b.datalen + roundUp w mem.length) = b.datalen + roundUp w mem.length :=
      ulong_of_lt (by omega)
    obtain ⟨ht, hz, hle, ha⟩ := h.resize (b.datalen + roundUp w mem.length) re (by omega) hok
    obtain ⟨hs, ha'⟩ := hz.store mem (by omega)
    simp only [readmem_of_growth hb hroom, hu, ht, if_true]
    refine ⟨_, rfl, hs, ?_⟩
    rw [ha']
    exact ha

theorem Holds.assign (h : b.Holds w l) (hc : c.Holds w l') (hne : c.addr ≠ b.addr)
    (ma re : Answer) (hl : l'.length + defaultBufferLen < 2 ^ w) (hok : re.ok = true) :
    ∃ b', b.assign w c ma re = some b' ∧ b'.Holds w l' ∧
      (b'.addr = b.addr ∨ b'.addr = some re.addr) := by
  obtain ⟨a, hb⟩ := h.block
  have hready : ∃ b₁, (if b.datalen ≠ 0 then { b.clearMem with datalen := 0 } else b) = b₁ ∧
      b₁.Holds w [] ∧ b₁.addr = b.addr := by
    refine ⟨_, rfl, ?_⟩
    split
    · exact h.clearMem
    · next h0 =>
      have hnil : l = [] := by
        rw [h.datalen_eq, not_not] at h0
        exact List.length_eq_zero_iff.mp h0
      exact ⟨hnil ▸ h, rfl⟩
  obtain ⟨b₁, he, hz, ha⟩ := hready
  obtain ⟨b', hr, hh, ha'⟩ := hz.readmem l' ma re (by simpa using hl) hok
  refine ⟨b', ?_, hh, ha ▸ ha'⟩
  simp only [Safebuffer.assign, if_neg hne, hb, he, Option.bind_some, hc.contents, hr,
    Option.map_some]

end Safebuffer

namespace Buffers

open Safebuffer

variable {w : ℕ} {s s' : Buffers} {a : Op} {es tr : List Returned} {i j : ℕ}
  {b b' c : Safebuffer} {x : List UInt8} {l : ℕ → Option (List UInt8)}

def interpret (l : ℕ → Option (List UInt8)) : Op → ℕ → Option (List UInt8)
  | .construct i _ _ => update l i (some [])
  | .copy i j _ _ => update l i (l j)
  | .ofMem i mem _ _ => update l i (some mem)
  | .readmem i mem _ _ => update l i ((l i).map (· ++ mem))
  | .clearMem i => update l i ((l i).map fun _ => [])
  | .assign i j _ _ => update l i (l j)
  | .swap i j => update (update l j (l i)) i (l j)
  | .destroy i => update l i none
  | .resize _ _ _ | .stepOffset _ _ => l

/-- The allocator succeeds, with a block that no other buffer has. -/
def Grants (s : Buffers) (i : ℕ) (a : Answer) : Prop :=
  a.ok = true ∧ ∀ j c, j ≠ i → s j = some c → c.addr ≠ some a.addr

/-- Every allocation succeeds and every length of data, after the operation, leaves two
kilobytes below the limit of its type. `swap` is not called. -/
def assumed (w : ℕ) (s : Buffers) : Op → Prop
  | .construct i bufflen ma => 1 ≤ bufflen ∧ bufflen < 2 ^ w ∧ s.Grants i ma
  | .copy i _ _ ma => s.Grants i ma
  | .ofMem i mem _ ma => mem.length + 2048 < 2 ^ w ∧ s.Grants i ma
  | .readmem i mem _ re =>
    (∀ b, s i = some b → b.datalen + mem.length + 2048 < 2 ^ w) ∧ s.Grants i re
  | .resize i len re => len < 2 ^ w ∧ s.Grants i re
  | .assign i j _ re => (∀ c, s j = some c → c.datalen + 2048 < 2 ^ w) ∧ s.Grants i re
  | .swap _ _ => False
  | .clearMem _ | .stepOffset _ _ | .destroy _ => True

structure Represents (w : ℕ) (s : Buffers) (l : ℕ → Option (List UInt8)) : Prop where
  rel : ∀ i, Option.Rel (Holds w) (s i) (l i)
  apart : ∀ i j b c, s i = some b → s j = some c → b.addr = c.addr → i = j

theorem Represents.holds (h : Represents w s l) (hi : s i = some b) :
    ∃ x, l i = some x ∧ b.Holds w x := by
  have hr := h.rel i
  rw [hi] at hr
  cases hl : l i with
  | none => rw [hl] at hr; cases hr
  | some x => rw [hl] at hr; cases hr with | some hx => exact ⟨x, rfl, hx⟩

theorem Represents.update (h : Represents w s l) (hb : b.Holds w x)
    (hf : ∀ j c, j ≠ i → s j = some c → c.addr ≠ b.addr) :
    Represents w (update s i (some b)) (update l i (some x)) := by
  constructor
  · intro k
    rcases eq_or_ne k i with rfl | hk
    · simpa only [update_self] using Option.Rel.some hb
    · simpa only [update_of_ne hk] using h.rel k
  · intro j k c d hj hk hcd
    rcases eq_or_ne j i with hji | hji <;> rcases eq_or_ne k i with hki | hki
    · exact hji.trans hki.symm
    · rw [hji, update_self] at hj
      rw [update_of_ne hki] at hk
      obtain rfl := Option.some.inj hj
      exact (hf k d hki hk hcd.symm).elim
    · rw [hki, update_self] at hk
      rw [update_of_ne hji] at hj
      obtain rfl := Option.some.inj hk
      exact (hf j c hji hj hcd).elim
    · rw [update_of_ne hji] at hj
      rw [update_of_ne hki] at hk
      exact h.apart j k c d hj hk hcd

theorem Represents.replace (h : Represents w s l) {re : Answer} (hg : s.Grants i re)
    (hi : s i = some b) (hb : b'.Holds w x) (ha : b'.addr = b.addr ∨ b'.addr = some re.addr) :
    Represents w (Function.update s i (some b')) (Function.update l i (some x)) := by
  apply h.update hb
  intro j c hj hc
  rcases ha with ha | ha <;> rw [ha]
  · exact fun he => hj (h.apart j i c b hc hi he)
  · exact hg.2 j c hj hc

theorem Represents.keep (h : Represents w s l) (hi : s i = some b) (hb : b'.Holds w x)
    (ha : b'.addr = b.addr) :
    Represents w (Function.update s i (some b')) (Function.update l i (some x)) := by
  apply h.update hb
  rw [ha]
  exact fun j c hj hc he => hj (h.apart j i c b hc hi he)

theorem make_cases {o : Option Safebuffer} (h : s.make i o = some (s', es)) :
    s i = none ∧ ∃ b, o = some b ∧ s' = Function.update s i (some b) ∧ es = [] := by
  unfold make at h
  split at h
  · contradiction
  · next hi =>
    obtain ⟨b, ho, he⟩ := Option.map_eq_some_iff.mp h
    obtain ⟨rfl, rfl⟩ := Prod.mk.inj he
    exact ⟨Option.not_isSome_iff_eq_none.mp hi, b, ho, rfl, rfl⟩

theorem use_cases {call : Call} (h : s.use w i call = some (s', es)) :
    ∃ b p, s i = some b ∧ b.call w call = some p ∧
      s' = Function.update s i (some p.1) ∧ es = (p.2.map (Returned.mk i)).toList := by
  obtain ⟨b, hb, hm⟩ := Option.bind_eq_some_iff.mp h
  obtain ⟨p, hp, he⟩ := Option.map_eq_some_iff.mp hm
  obtain ⟨rfl, rfl⟩ := Prod.mk.inj he
  exact ⟨b, p, hb, hp, rfl, rfl⟩

theorem Represents.readmem {mem : List UInt8} {ma re : Answer} (h : Represents w s l)
    (hi : s i = some b) (hg : assumed w s (.readmem i mem ma re)) :
    ∃ s', s.step w (.readmem i mem ma re) = some (s', [⟨i, true⟩]) ∧
      Represents w s' (interpret l (.readmem i mem ma re)) := by
  obtain ⟨x, hx, hh⟩ := h.holds hi
  have hl := hg.1 b hi
  rw [hh.datalen_eq] at hl
  obtain ⟨b', hr, hh', ha⟩ := hh.readmem mem ma re
    (by simp only [defaultBufferLen]; omega) hg.2.1
  refine ⟨Function.update s i (some b'), ?_, ?_⟩
  · simp [step, use, call, hi, hr]
  · rw [interpret, hx]
    exact h.replace hg.2 hi hh' ha

theorem Represents.resize {n : ℕ} {re : Answer} (h : Represents w s l) (hi : s i = some b)
    (hg : assumed w s (.resize i n re)) :
    ∃ s', s.step w (.resize i n re) = some (s', [⟨i, true⟩]) ∧
      Represents w s' (interpret l (.resize i n re)) := by
  obtain ⟨x, hx, hh⟩ := h.holds hi
  obtain ⟨ht, hh', -, ha⟩ := hh.resize n re hg.1 hg.2.1
  refine ⟨Function.update s i (some (b.resize w n re).1), ?_, ?_⟩
  · simp [step, use, call, hi, ht]
  · have hl : Function.update l i (some x) = l := by rw [← hx, update_eq_self]
    rw [interpret, ← hl]
    exact h.replace hg.2 hi hh' ha

theorem Represents.assign {ma re : Answer} (h : Represents w s l) (hi : s i = some b)
    (hj : s j = some c) (hg : assumed w s (.assign i j ma re)) :
    ∃ s', s.step w (.assign i j ma re) = some (s', []) ∧
      Represents w s' (interpret l (.assign i j ma re)) := by
  obtain ⟨x, hx, hh⟩ := h.holds hi
  obtain ⟨y, hy, hc⟩ := h.holds hj
  have hl := hg.1 c hj
  rw [hc.datalen_eq] at hl
  by_cases he : c.addr = b.addr
  · obtain rfl : j = i := h.apart j i c b hj hi he
    refine ⟨s, ?_, ?_⟩
    · simp [step, use, call, hj, Safebuffer.assign]
    · rw [interpret, update_eq_self]
      exact h
  · obtain ⟨b', hr, hh', ha⟩ := hh.assign hc he ma re
      (by simp only [defaultBufferLen]; omega) hg.2.1
    refine ⟨Function.update s i (some b'), ?_, ?_⟩
    · simp [step, use, call, hi, hj, hr]
    · rw [interpret, hy]
      exact h.replace hg.2 hi hh' ha

theorem Represents.destroy (h : Represents w s l) :
    Represents w (Function.update s i none) (Function.update l i none) := by
  constructor
  · intro k
    rcases eq_or_ne k i with rfl | hk
    · simpa only [update_self] using Option.Rel.none
    · simpa only [update_of_ne hk] using h.rel k
  · intro j k c d hj hk
    exact h.apart j k c d (Update.of_update (by simp) hj).2 (Update.of_update (by simp) hk).2

theorem Represents.step (h : Represents w s l) (hg : assumed w s a)
    (hs : s.step w a = some (s', es)) :
    Represents w s' (interpret l a) ∧ ∀ e ∈ es, e.ok = true := by
  cases a with
  | construct i n ma =>
    obtain ⟨-, b, hb, rfl, rfl⟩ := make_cases hs
    obtain ⟨hh, ha⟩ := holds_construct hg.1 hg.2.1 hb
    exact ⟨h.update hh (ha ▸ hg.2.2.2), by simp⟩
  | copy i j junk ma =>
    obtain ⟨-, b, hb, rfl, rfl⟩ := make_cases hs
    obtain ⟨c, hc, hb⟩ := Option.bind_eq_some_iff.mp hb
    obtain ⟨x, hx, hh⟩ := h.holds hc
    obtain ⟨hh', ha⟩ := hh.copy hb
    rw [interpret, hx]
    exact ⟨h.update hh' (ha ▸ hg.2), by simp⟩
  | ofMem i mem junk ma =>
    obtain ⟨-, b, hb, rfl, rfl⟩ := make_cases hs
    have hl := hg.1
    obtain ⟨hh, ha⟩ := holds_ofMem (by simp only [defaultBufferLen]; omega) hb
    exact ⟨h.update hh (ha ▸ hg.2.2), by simp⟩
  | readmem i mem ma re =>
    obtain ⟨b, p, hi, -, -, -⟩ := use_cases hs
    obtain ⟨s₁, hs₁, hr⟩ := h.readmem hi hg
    obtain ⟨rfl, rfl⟩ := Prod.mk.inj (Option.some.inj (hs.symm.trans hs₁))
    exact ⟨hr, by simp⟩
  | resize i n re =>
    obtain ⟨b, p, hi, -, -, -⟩ := use_cases hs
    obtain ⟨s₁, hs₁, hr⟩ := h.resize hi hg
    obtain ⟨rfl, rfl⟩ := Prod.mk.inj (Option.some.inj (hs.symm.trans hs₁))
    exact ⟨hr, by simp⟩
  | clearMem i =>
    obtain ⟨b, p, hi, hp, rfl, rfl⟩ := use_cases hs
    obtain rfl := Option.some.inj hp
    obtain ⟨x, hx, hh⟩ := h.holds hi
    obtain ⟨hh', ha⟩ := hh.clearMem
    rw [interpret, hx]
    exact ⟨h.keep hi hh' ha, by simp⟩
  | stepOffset i n =>
    obtain ⟨b, p, hi, hp, rfl, rfl⟩ := use_cases hs
    obtain rfl := Option.some.inj hp
    obtain ⟨x, hx, hh⟩ := h.holds hi
    have hh' : (b.stepOffset w n).Holds w x :=
      ⟨hh.block, hh.datalen_eq, hh.length_lt, hh.bufferlen_lt⟩
    have hl : Function.update l i (some x) = l := by rw [← hx, update_eq_self]
    rw [interpret, ← hl]
    exact ⟨h.keep hi hh' rfl, by simp⟩
  | assign i j ma re =>
    obtain ⟨c, hj, hu⟩ := Option.bind_eq_some_iff.mp hs
    obtain ⟨b, p, hi, -, -, -⟩ := use_cases hu
    obtain ⟨s₁, hs₁, hr⟩ := h.assign hi hj hg
    obtain ⟨rfl, rfl⟩ := Prod.mk.inj (Option.some.inj (hs.symm.trans hs₁))
    exact ⟨hr, by simp⟩
  | swap i j => exact hg.elim
  | destroy i =>
    obtain ⟨b, -, he⟩ := Option.map_eq_some_iff.mp hs
    obtain ⟨rfl, rfl⟩ := Prod.mk.inj he
    exact ⟨h.destroy, by simp⟩

abbrev specified (w : ℕ) : System (Buffers × (ℕ → Option (List UInt8))) Op Returned :=
  (buffers w).observed (fun _ => none) fun _ a _ l => interpret l a

theorem represents_of_reach {p : Buffers × (ℕ → Option (List UInt8))}
    (h : (specified w).Reach (fun p => assumed w p.1) tr p) :
    Represents w p.1 p.2 ∧ ∀ e ∈ tr, e.ok = true := by
  refine h.invariant
    (I := fun tr p => Represents w p.1 p.2 ∧ ∀ e ∈ tr, e.ok = true) ?_ ?_
  · rintro ⟨s, l⟩ ⟨hs, hl⟩
    obtain rfl : s = fun _ => none := hs
    obtain rfl : l = fun _ => none := hl
    exact ⟨⟨fun _ => .none, by simp⟩, by simp⟩
  · rintro tr p a p' es - ⟨hr, ht⟩ hg hs
    obtain ⟨hs, hn⟩ := System.observed_step.mp hs
    obtain ⟨hr', he⟩ := hr.step hg hs
    exact ⟨hn ▸ hr', List.forall_mem_append.mpr ⟨ht, he⟩⟩

/-- In every run every buffer holds its list, with a block of the recorded length that is
zero behind the data and longer than the data; `readmem` and `resize` return `true`. -/
theorem buffers_hold_lists (h : (specified w).Reach (fun p => assumed w p.1) tr (s, l)) :
    (∀ i, (s i).map contents = l i) ∧
    (∀ i b, s i = some b → b.contents.length = b.datalen ∧ b.datalen < b.bufferlen ∧
      ∃ blk, b.pbuffer = some blk ∧ blk.bytes.length = b.bufferlen ∧
        blk.bytes.drop b.datalen = List.replicate (b.bufferlen - b.datalen) 0) ∧
    (∀ e ∈ tr, e.ok = true) ∧
    (∀ i b mem ma re, s i = some b → assumed w s (.readmem i mem ma re) →
      ∃ s', s.step w (.readmem i mem ma re) = some (s', [⟨i, true⟩])) ∧
    ∀ i b n re, s i = some b → assumed w s (.resize i n re) →
      ∃ s', s.step w (.resize i n re) = some (s', [⟨i, true⟩]) := by
  obtain ⟨hr, ht⟩ := represents_of_reach h
  refine ⟨?_, ?_, ht, ?_, ?_⟩
  · intro i
    cases hb : s i with
    | none =>
      have hi : Option.Rel (Holds w) (s i) (l i) := hr.rel i
      rw [hb] at hi
      cases hl : l i with
      | none => rfl
      | some x => rw [hl] at hi; cases hi
    | some b =>
      obtain ⟨x, hx, hh⟩ := hr.holds hb
      exact (congrArg some hh.contents).trans hx.symm
  · intro i b hb
    obtain ⟨x, -, hh⟩ := hr.holds hb
    obtain ⟨a, ha⟩ := hh.block
    have hlt := hh.length_lt
    rw [hh.contents, hh.datalen_eq]
    refine ⟨rfl, hlt, _, ha, ?_, List.drop_left⟩
    simp only [List.length_append, List.length_replicate]
    omega
  · intro i b mem ma re hi hg
    obtain ⟨s', hs, -⟩ := hr.readmem hi hg
    exact ⟨s', hs⟩
  · intro i b n re hi hg
    obtain ⟨s', hs, -⟩ := hr.resize hi hg
    exact ⟨s', hs⟩

theorem specified_step {p : Buffers × (ℕ → Option (List UInt8))}
    (h : (specified w).Reach (fun p => assumed w p.1) tr p) (a : Op) (hg : assumed w p.1 a)
    (hs : p.1.step w a = some (s', es)) :
    (specified w).Reach (fun p => assumed w p.1) (tr ++ es) (s', interpret p.2 a) :=
  h.step hg (System.observed_step.mpr ⟨hs, rfl⟩)

/-- A buffer, a byte read into it, a copy, and the first buffer cleared. -/
theorem buffers_hold_lists_example : ∃ tr s l,
    (specified 32).Reach (fun p => assumed 32 p.1) tr (s, l) ∧ tr = [⟨0, true⟩] ∧
      l 0 = some [] ∧ l 1 = some [7] ∧ ∀ i, (s i).map contents = l i := by
  have h₀ : (specified 32).Reach (fun p => assumed 32 p.1) [] (fun _ => none, fun _ => none) :=
    .start ⟨rfl, rfl⟩
  have h₁ := specified_step h₀ (.construct 0 3 ⟨true, 10, fun _ => 1⟩)
    ⟨by decide, by decide, rfl, by simp⟩ rfl
  have h₂ := specified_step h₁ (.readmem 0 [7] ⟨true, 10, fun _ => 0⟩ ⟨true, 10, fun _ => 0⟩)
    ⟨by simp, rfl, by simp +contextual [update_of_ne]⟩ rfl
  have h₃ := specified_step h₂ (.copy 1 0 5 ⟨true, 11, fun _ => 2⟩) ⟨rfl, by
    intro j c _ hc
    by_cases hj : j = 0
    · subst hj
      obtain rfl := Option.some.inj hc
      decide
    · simp [update_of_ne hj] at hc⟩ rfl
  have h₄ := specified_step h₃ (.clearMem 0) trivial rfl
  exact ⟨_, _, _, h₄, rfl, rfl, rfl, (buffers_hold_lists h₄).1⟩

end Buffers

end UvWrapper
