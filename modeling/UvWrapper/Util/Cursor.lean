import UvWrapper.Util.Failure

/-! # The read cursor

`GetCurrentReadOffset` is meant to lie inside the data. The constructors that copy leave
`m_offset` as the memory was, `resize` drops the data without the offset where `realloc`
fails, and `readmem` may pass the limit of the data's length. Every other operation brings
the offset along.
-/

namespace UvWrapper

open Function Memory Transition

namespace Safebuffer

variable {w n : ℕ} {b b' c : Safebuffer} {mem : List UInt8} {ma re : Answer} {ok : Bool}

/-- The data's length fits its type, and there is none without a block. -/
structure Sound (w : ℕ) (b : Safebuffer) : Prop where
  datalen_lt : b.datalen < 2 ^ w
  null : b.pbuffer = none → b.datalen = 0

theorem sound_lost : b.lost.Sound w := ⟨Nat.two_pow_pos w, fun _ => rfl⟩

theorem ulong_lt (n : ℕ) : ulong w n < 2 ^ w := Nat.mod_lt _ (Nat.two_pow_pos w)

theorem readmem_stored (h : b.readmem w mem ma re = some (b', true)) :
    b'.pbuffer ≠ none ∧ b'.offset = b.offset ∧
      b'.datalen = ulong w ((if b.pbuffer = none then 0 else b.datalen) + mem.length) := by
  obtain ⟨c, hp, ho, hd, rfl⟩ := readmem_store h
  exact ⟨store_pbuffer hp, ho, by rw [← hd]; rfl⟩

theorem readmem_offset (h : b.readmem w mem ma re = some (b', ok)) : b'.offset = b.offset := by
  cases ok with
  | true => exact (readmem_stored h).2.1
  | false =>
    obtain ⟨-, -, rfl⟩ := readmem_failed h
    rfl

theorem sound_readmem (h : b.readmem w mem ma re = some (b', ok)) : b'.Sound w := by
  cases ok with
  | true =>
    obtain ⟨hp, -, hd⟩ := readmem_stored h
    exact ⟨hd ▸ ulong_lt _, fun hn => absurd hn hp⟩
  | false =>
    obtain ⟨-, -, rfl⟩ := readmem_failed h
    exact sound_lost

theorem Sound.assign (hb : b.Sound w) (ho : b.offset ≤ b.datalen)
    (h : b.assign w c ma re = some b') : b' = b ∨ b'.offset = 0 := by
  unfold Safebuffer.assign at h
  split at h
  · exact .inl (Option.some.inj h).symm
  · right
    obtain ⟨b₁, hready, hr⟩ := Option.bind_eq_some_iff.mp h
    obtain ⟨⟨b₂, ok⟩, hread, rfl⟩ := Option.map_eq_some_iff.mp hr
    rw [readmem_offset hread]
    cases hp : b.pbuffer with
    | none =>
      rw [hp] at hready
      obtain ⟨blk, -, rfl⟩ := Option.map_eq_some_iff.mp hready
      exact Nat.le_zero.mp (hb.null hp ▸ ho)
    | some blk =>
      rw [hp] at hready
      obtain rfl := Option.some.inj hready
      split
      · rfl
      · next h0 => exact Nat.le_zero.mp (Decidable.not_not.mp h0 ▸ ho)

theorem Sound.call (hb : b.Sound w) {k : Call} {p : Safebuffer × Option Bool}
    (h : b.call w k = some p) : p.1.Sound w := by
  cases k with
  | readmem mem ma re =>
    obtain ⟨q, hr, rfl⟩ := Option.map_eq_some_iff.mp h
    exact sound_readmem hr
  | resize len re =>
    obtain rfl := Option.some.inj h
    obtain ⟨-, -, he⟩ | ⟨-, -, hd, hp⟩ := resize_cases (w := w) b len re
    · simp only [he]
      exact sound_lost
    · exact ⟨hd ▸ hb.datalen_lt, fun hn => hd.trans (hb.null (hp hn))⟩
  | clearMem =>
    obtain rfl := Option.some.inj h
    exact ⟨Nat.two_pow_pos w, fun _ => rfl⟩
  | stepOffset n =>
    obtain rfl := Option.some.inj h
    exact ⟨hb.datalen_lt, hb.null⟩
  | assign other ma re =>
    obtain ⟨b', ha, rfl⟩ := Option.map_eq_some_iff.mp h
    unfold Safebuffer.assign at ha
    split at ha
    · obtain rfl := Option.some.inj ha
      exact hb
    · obtain ⟨b₁, -, hr⟩ := Option.bind_eq_some_iff.mp ha
      obtain ⟨q, hread, rfl⟩ := Option.map_eq_some_iff.mp hr
      exact sound_readmem hread

/-- The condition on a call that the read offset stays inside the data. -/
def KeepsOffset (w : ℕ) (b : Safebuffer) : Call → Prop
  | .readmem mem _ re =>
    (re.ok = false → b.Grows w mem.length → b.offset = 0) ∧
      (re.ok = true ∨ ¬ b.Grows w mem.length →
        b.datalen + mem.length < 2 ^ w ∨ b.offset ≤ b.datalen + mem.length - 2 ^ w)
  | .resize len re => re.ok = false → b.bufferlen < len → b.offset = 0
  | .clearMem | .stepOffset _ | .assign _ _ _ => True

/-- The lengths of a call fit their type, and the cursor is moved by at most what is left. -/
def Admissible (w : ℕ) (b : Safebuffer) : Call → Prop
  | .readmem mem _ _ => mem.length < 2 ^ w
  | .stepOffset n => n ≤ ulongSub w b.datalen b.offset
  | .resize _ _ | .clearMem | .assign _ _ _ => True

theorem ulong_add_of_lt {x y : ℕ} (hx : x < 2 ^ w) (hy : y < 2 ^ w) :
    ulong w (x + y) = if x + y < 2 ^ w then x + y else x + y - 2 ^ w := by
  split
  · next h => exact ulong_of_lt h
  · next h =>
    rw [ulong, Nat.mod_eq_sub_mod (Nat.not_lt.mp h)]
    exact Nat.mod_eq_of_lt (by omega)

/-- Where the bytes are stored, the cursor is where it was and the data longer, unless its
length has passed the limit of its type. -/
theorem Sound.readmem_stored_iff (hb : b.Sound w) (hl : mem.length < 2 ^ w)
    (h : b.readmem w mem ma re = some (b', true)) (ho : b.offset ≤ b.datalen) :
    b'.offset ≤ b'.datalen ↔
      b.datalen + mem.length < 2 ^ w ∨ b.offset ≤ b.datalen + mem.length - 2 ^ w := by
  obtain ⟨-, hoff, hd⟩ := readmem_stored h
  have hold : (if b.pbuffer = none then 0 else b.datalen) = b.datalen :=
    ite_eq_right_iff.mpr fun hn => (hb.null hn).symm
  rw [hoff, hd, hold, ulong_add_of_lt hb.datalen_lt hl]
  split
  · next hlt => exact iff_of_true (Nat.le_add_right_of_le ho) (.inl hlt)
  · next hge => exact (or_iff_right hge).symm

theorem Sound.readmem_iff (hb : b.Sound w) (hl : mem.length < 2 ^ w)
    (h : b.readmem w mem ma re = some (b', ok)) (ho : b.offset ≤ b.datalen) :
    b'.offset ≤ b'.datalen ↔ b.KeepsOffset w (.readmem mem ma re) := by
  cases ok with
  | false =>
    obtain ⟨hg, hok, rfl⟩ := readmem_failed h
    have hrefused : ¬ (re.ok = true ∨ ¬ b.Grows w mem.length) := by simp [hok, hg]
    constructor
    · intro h0
      exact ⟨fun _ _ => Nat.le_zero.mp h0, fun h => absurd h hrefused⟩
    · rintro ⟨h0, -⟩
      exact Nat.le_of_eq (h0 hok hg)
  | true =>
    have hgo := readmem_granted h
    rw [hb.readmem_stored_iff hl h ho]
    constructor
    · intro hd
      refine ⟨fun hok hg => ?_, fun _ => hd⟩
      rcases hgo with ht | hn
      · cases hok.symm.trans ht
      · exact absurd hg hn
    · rintro ⟨-, hd⟩
      exact hd hgo

theorem Sound.call_iff (hb : b.Sound w) (ho : b.offset ≤ b.datalen) {k : Call}
    {p : Safebuffer × Option Bool} (ha : b.Admissible w k) (h : b.call w k = some p) :
    p.1.offset ≤ p.1.datalen ↔ b.KeepsOffset w k := by
  cases k with
  | readmem mem ma re =>
    obtain ⟨q, hr, rfl⟩ := Option.map_eq_some_iff.mp h
    exact hb.readmem_iff ha hr ho
  | resize len re =>
    obtain rfl := Option.some.inj h
    obtain ⟨hn, hok, he⟩ | ⟨ht, hoff, hd, hp⟩ := resize_cases (w := w) b len re
    · rw [he]
      constructor
      · exact fun h0 _ _ => Nat.le_zero.mp h0
      · exact fun h => Nat.le_of_eq (h hok hn)
    · simp only [hoff, hd]
      refine iff_of_true ho ?_
      intro hok hn
      rw [resize_of_failure hn hok] at ht
      cases ht
  | clearMem =>
    obtain rfl := Option.some.inj h
    exact iff_of_true (Nat.le_refl 0) trivial
  | stepOffset n =>
    obtain rfl := Option.some.inj h
    have hlt := hb.datalen_lt
    have hs : n ≤ b.datalen - b.offset := ulongSub_of_le ho hlt ▸ ha
    refine iff_of_true ?_ trivial
    simp only [stepOffset]
    rw [ulong_of_lt (by omega)]
    omega
  | assign other ma re =>
    obtain ⟨b', has, rfl⟩ := Option.map_eq_some_iff.mp h
    refine iff_of_true ?_ trivial
    rcases hb.assign ho has with rfl | h0
    · exact ho
    · rw [h0]
      exact Nat.zero_le _

end Safebuffer

namespace Buffers

open Safebuffer

variable {w i : ℕ} {s s' : Buffers} {a : Op} {es tr : List Returned} {b : Safebuffer}
  {P : Safebuffer → Prop} {G : Buffers → Op → Prop}

def Everywhere (s : Buffers) (P : Safebuffer → Prop) : Prop := ∀ i b, s i = some b → P b

theorem Everywhere.update_iff (h : s.Everywhere P) :
    Everywhere (update s i (some b)) P ↔ P b := by
  refine (forall_update_iff s fun _ o => ∀ b, o = some b → P b).trans ?_
  constructor
  · rintro ⟨hb, -⟩
    exact hb b rfl
  · intro hb
    exact ⟨fun c hc => Option.some.inj hc ▸ hb, fun j _ => h j⟩

theorem Everywhere.destroy (h : s.Everywhere P) : Everywhere (update s i none) P := by
  intro j b hj
  exact h j b (Update.of_update (Option.some_ne_none b).symm hj).2

/-- `swap` is not called, payloads fit their type, and `StepOffset` is called with at most
`getDataLength() - GetCurrentReadOffset()`. -/
def cursorCalls (w : ℕ) (s : Buffers) : Op → Prop
  | .ofMem _ mem _ _ => mem.length < 2 ^ w
  | .readmem i mem ma re => ∀ b, s i = some b → b.Admissible w (.readmem mem ma re)
  | .stepOffset i n => ∀ b, s i = some b → b.Admissible w (.stepOffset n)
  | .swap _ _ => False
  | .construct _ _ _ | .copy _ _ _ _ | .resize _ _ _ | .clearMem _ | .assign _ _ _ _
  | .destroy _ => True

def keepsCursor (w : ℕ) (s : Buffers) : Op → Prop
  | .copy _ j junk _ => ∀ c, s j = some c → junk ≤ c.datalen
  | .ofMem _ mem junk _ => junk ≤ mem.length
  | .readmem i mem ma re => ∀ b, s i = some b → b.KeepsOffset w (.readmem mem ma re)
  | .resize i len re => ∀ b, s i = some b → b.KeepsOffset w (.resize len re)
  | .construct _ _ _ | .clearMem _ | .stepOffset _ _ | .assign _ _ _ _ | .swap _ _
  | .destroy _ => True

/-- The read offset is inside the data in every state of every run of these calls. -/
def CursorInside (w : ℕ) (G : Buffers → Op → Prop) : Prop :=
  ∀ tr s, (buffers w).Reach (fun s a => cursorCalls w s a ∧ G s a) tr s →
    s.Everywhere fun b => b.offset ≤ b.datalen

theorem sound_step (h : s.Everywhere (Sound w)) (hc : cursorCalls w s a)
    (hs : s.step w a = some (s', es)) : s'.Everywhere (Sound w) := by
  have huse {j : ℕ} {k : Call} (hu : s.use w j k = some (s', es)) :
      s'.Everywhere (Sound w) := by
    obtain ⟨b, p, hj, hp, rfl, -⟩ := use_cases hu
    exact h.update_iff.mpr ((h j b hj).call hp)
  cases a with
  | construct j n ma =>
    obtain ⟨-, b, hb, rfl, -⟩ := make_cases hs
    obtain ⟨blk, -, rfl⟩ := Option.map_eq_some_iff.mp hb
    exact h.update_iff.mpr ⟨Nat.two_pow_pos w, fun _ => rfl⟩
  | copy j k junk ma =>
    obtain ⟨-, b, hb, rfl, -⟩ := make_cases hs
    obtain ⟨c, hk, hb⟩ := Option.bind_eq_some_iff.mp hb
    obtain ⟨blk, -, rfl⟩ := Option.map_eq_some_iff.mp hb
    exact h.update_iff.mpr ⟨(h k c hk).datalen_lt, fun hn => absurd hn (Option.some_ne_none _)⟩
  | ofMem j mem junk ma =>
    obtain ⟨-, b, hb, rfl, -⟩ := make_cases hs
    obtain ⟨blk, -, rfl⟩ := Option.map_eq_some_iff.mp hb
    exact h.update_iff.mpr ⟨hc, fun hn => absurd hn (Option.some_ne_none _)⟩
  | readmem | resize | clearMem | stepOffset => exact huse hs
  | assign j k ma re =>
    obtain ⟨c, -, hu⟩ := Option.bind_eq_some_iff.mp hs
    exact huse hu
  | swap => exact hc.elim
  | destroy j =>
    obtain ⟨b, -, he⟩ := Option.map_eq_some_iff.mp hs
    obtain ⟨rfl, -⟩ := Prod.mk.inj he
    exact h.destroy

theorem cursor_step_iff (h : s.Everywhere (Sound w))
    (ho : s.Everywhere fun b => b.offset ≤ b.datalen) (hc : cursorCalls w s a)
    (hs : s.step w a = some (s', es)) :
    (s'.Everywhere fun b => b.offset ≤ b.datalen) ↔ keepsCursor w s a := by
  have huse {j : ℕ} {k : Call} (hu : s.use w j k = some (s', es))
      (ha : ∀ b, s j = some b → b.Admissible w k) :
      (s'.Everywhere fun b => b.offset ≤ b.datalen) ↔
        ∀ b, s j = some b → b.KeepsOffset w k := by
    obtain ⟨b, p, hj, hp, rfl, -⟩ := use_cases hu
    rw [ho.update_iff, (h j b hj).call_iff (ho j b hj) (ha b hj) hp]
    exact ⟨fun hk c hj' => Option.some.inj (hj.symm.trans hj') ▸ hk, fun hk => hk b hj⟩
  cases a with
  | construct j n ma =>
    obtain ⟨-, b, hb, rfl, -⟩ := make_cases hs
    obtain ⟨blk, -, rfl⟩ := Option.map_eq_some_iff.mp hb
    exact iff_of_true (ho.update_iff.mpr (Nat.le_refl 0)) trivial
  | copy j k junk ma =>
    obtain ⟨-, b, hb, rfl, -⟩ := make_cases hs
    obtain ⟨c, hk, hb⟩ := Option.bind_eq_some_iff.mp hb
    obtain ⟨blk, -, rfl⟩ := Option.map_eq_some_iff.mp hb
    rw [ho.update_iff]
    exact ⟨fun hj d hd => Option.some.inj (hk.symm.trans hd) ▸ hj, fun hj => hj c hk⟩
  | ofMem j mem junk ma =>
    obtain ⟨-, b, hb, rfl, -⟩ := make_cases hs
    obtain ⟨blk, -, rfl⟩ := Option.map_eq_some_iff.mp hb
    exact ho.update_iff
  | readmem j mem ma re => exact huse hs hc
  | resize j len re => exact huse hs fun _ _ => trivial
  | clearMem j =>
    exact (huse hs fun _ _ => trivial).trans (iff_of_true (fun _ _ => trivial) trivial)
  | stepOffset j n => exact (huse hs hc).trans (iff_of_true (fun _ _ => trivial) trivial)
  | assign j k ma re =>
    obtain ⟨c, -, hu⟩ := Option.bind_eq_some_iff.mp hs
    exact (huse hu fun _ _ => trivial).trans (iff_of_true (fun _ _ => trivial) trivial)
  | swap => exact hc.elim
  | destroy j =>
    obtain ⟨b, -, he⟩ := Option.map_eq_some_iff.mp hs
    obtain ⟨rfl, -⟩ := Prod.mk.inj he
    exact iff_of_true ho.destroy trivial

theorem sound_of_reach
    (h : (buffers w).Reach (fun s a => cursorCalls w s a ∧ G s a) tr s) :
    s.Everywhere (Sound w) := by
  apply h.stateInvariant (I := fun s => s.Everywhere (Sound w))
  · rintro s hs i b hi
    obtain rfl : s = fun _ => none := hs
    cases hi
  · intro tr s a s' es _ hI hg hs
    exact sound_step hI hg.1 hs

/-- The read offset stays inside the data in exactly the runs whose steps all meet the
condition. -/
theorem cursorInside_iff (w : ℕ) (G : Buffers → Op → Prop) : CursorInside w G ↔
    (buffers w).Always (fun s a => cursorCalls w s a ∧ G s a) (keepsCursor w) := by
  constructor
  · intro h tr s a s' es hr hg hs
    exact (cursor_step_iff (sound_of_reach hr) (h tr s hr) hg.1 hs).mp
      (h _ _ (hr.step hg hs))
  · intro h tr s hr
    apply hr.stateInvariant (I := fun s => s.Everywhere fun b => b.offset ≤ b.datalen)
    · rintro s hs i b hi
      obtain rfl : s = fun _ => none := hs
      cases hi
    · intro tr s a s' es hr ho hg hs
      exact (cursor_step_iff (sound_of_reach hr) ho hg.1 hs).mpr (h tr s a s' es hr hg hs)

/-- A buffer made from one byte, where the memory of `m_offset` held a five. -/
theorem not_cursorInside : ¬ CursorInside 32 (anyStep _ _) := by
  intro h
  have hg : cursorCalls 32 (fun _ => none) (.ofMem 0 [7] 5 ⟨true, 10, fun _ => 0⟩) :=
    show [(7 : UInt8)].length < 2 ^ 32 by decide
  have hr := System.Reach.step (M := buffers 32) (G := fun s a => cursorCalls 32 s a ∧ True)
    (.start rfl) ⟨hg, trivial⟩ rfl
  exact absurd (h _ _ hr 0 _ rfl) (by decide)

end Buffers

end UvWrapper
