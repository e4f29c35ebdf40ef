import UvWrapper.Util.Capacity
import UvWrapper.Util.Refinement
import UvWrapper.Util.Swap

/-! # Failed appends

`readmem` and `resize` return `false` where `realloc` fails. By then `resize` has overwritten
the pointer to the old block and both lengths, so the buffer is as it was only if it had
neither data nor capacity.
-/

namespace UvWrapper

open Function Memory Transition

namespace Safebuffer

variable {w n : ℕ} {b b' c : Safebuffer} {mem : List UInt8} {ma re : Answer}

/-- What `resize` leaves where `realloc` fails. -/
def lost (b : Safebuffer) : Safebuffer := { b with pbuffer := none, bufferlen := 0, datalen := 0 }

def Grows (w : ℕ) (b : Safebuffer) (len : ℕ) : Prop :=
  b.pbuffer ≠ none ∧ ulongSub w b.bufferlen b.datalen ≤ len ∧
    b.bufferlen < ulong w (b.datalen + roundUp w len)

/-- A call that failed has changed nothing that can be read, and a later append that succeeds
adds to the old contents. -/
structure Unharmed (w : ℕ) (b b' : Safebuffer) : Prop where
  view : b'.view = b.view
  later : ∀ mem ma re c, mem.length < 2 ^ w → b'.readmem w mem ma re = some (c, true) →
    c.contents = b.contents ++ mem

theorem resize_of_failure (hn : b.bufferlen < n) (hok : re.ok = false) :
    b.resize w n re = (b.lost, false) := by
  have hr : realloc re b.pbuffer n = none := by
    simp only [realloc, hok, Bool.false_eq_true, if_false]
  simp only [Safebuffer.resize, if_neg (Nat.not_le.mpr hn), hr, lost]

theorem resize_failed (h : (b.resize w n re).2 = false) : b.bufferlen < n ∧ re.ok = false := by
  constructor
  · by_contra hn
    rw [Safebuffer.resize, if_pos (Nat.not_lt.mp hn)] at h
    cases h
  · rw [← Bool.not_eq_true]
    intro hok
    rw [resize_returns hok] at h
    cases h

/-- The block that `readmem` allocates itself never has to grow. -/
theorem readmem_of_fresh (hb : b.pbuffer = none) : b.readmem w mem ma re =
    (malloc ma (roundUp w mem.length)).map fun blk =>
      (Safebuffer.store w { b with
        pbuffer := some { blk with bytes := memset blk.bytes 0 0 (roundUp w mem.length) }
        bufferlen := roundUp w mem.length
        datalen := 0 } mem, true) := by
  have hu : ulong w (0 + roundUp w mem.length) = roundUp w mem.length := by
    rw [Nat.zero_add, roundUp, ulong, ulong, Nat.mod_mod]
  rw [readmem_of_null hb]
  cases malloc ma (roundUp w mem.length) with
  | none => rfl
  | some blk =>
    rw [Option.bind_some, Option.map_some]
    rcases Nat.lt_or_ge mem.length (ulongSub w (roundUp w mem.length) 0) with hroom | hroom
    · exact readmem_of_room rfl hroom
    · rw [readmem_of_growth rfl hroom]
      simp only [hu, Safebuffer.resize, Nat.le_refl, if_true]

theorem readmem_of_failure (hg : b.Grows w mem.length) (hok : re.ok = false) :
    b.readmem w mem ma re = some (b.lost, false) := by
  obtain ⟨hb, hroom, hn⟩ := hg
  obtain ⟨blk, hb⟩ := Option.ne_none_iff_exists'.mp hb
  rw [readmem_of_growth hb hroom]
  simp only [resize_of_failure hn hok, Bool.false_eq_true, if_false]

theorem readmem_failed (h : b.readmem w mem ma re = some (b', false)) :
    b.Grows w mem.length ∧ re.ok = false ∧ b' = b.lost := by
  cases hb : b.pbuffer with
  | none =>
    rw [readmem_of_fresh hb] at h
    obtain ⟨blk, -, he⟩ := Option.map_eq_some_iff.mp h
    cases (Prod.mk.inj he).2
  | some blk =>
    rcases Nat.lt_or_ge mem.length (ulongSub w b.bufferlen b.datalen) with hroom | hroom
    · rw [readmem_of_room hb hroom] at h
      cases h
    · have hgrown := h
      rw [readmem_of_growth hb hroom] at hgrown
      dsimp only at hgrown
      split at hgrown
      · cases hgrown
      · next hf =>
        obtain ⟨hn, hok⟩ := resize_failed (Bool.not_eq_true _ ▸ hf)
        have hg : b.Grows w mem.length := ⟨by rw [hb]; exact Option.some_ne_none blk, hroom, hn⟩
        rw [readmem_of_failure hg hok] at h
        exact ⟨hg, hok, (Prod.mk.inj (Option.some.inj h)).1.symm⟩

theorem readmem_granted (h : b.readmem w mem ma re = some (b', true)) :
    re.ok = true ∨ ¬ b.Grows w mem.length := by
  rw [← Bool.not_eq_false, ← not_and_or]
  rintro ⟨hok, hg⟩
  rw [readmem_of_failure hg hok] at h
  cases h

theorem resize_cases (b : Safebuffer) (n : ℕ) (re : Answer) :
    (b.bufferlen < n ∧ re.ok = false ∧ b.resize w n re = (b.lost, false)) ∨
      ((b.resize w n re).2 = true ∧ (b.resize w n re).1.offset = b.offset ∧
        (b.resize w n re).1.datalen = b.datalen ∧
        ((b.resize w n re).1.pbuffer = none → b.pbuffer = none)) := by
  rcases Nat.lt_or_ge b.bufferlen n with hn | hn
  · cases hok : re.ok with
    | false => exact .inl ⟨hn, rfl, resize_of_failure hn hok⟩
    | true =>
      obtain ⟨blk, hr⟩ := realloc_ok (p := b.pbuffer) (n := n) hok
      right
      rw [Safebuffer.resize, if_neg (Nat.not_le.mpr hn), hr]
      exact ⟨rfl, rfl, rfl, fun h => absurd h (Option.some_ne_none _)⟩
  · rw [Safebuffer.resize, if_pos hn]
    exact .inr ⟨rfl, rfl, rfl, id⟩

theorem store_pbuffer (hb : b.pbuffer ≠ none) : (b.store w mem).pbuffer ≠ none :=
  fun hn => hb (Option.map_eq_none_iff.mp hn)

/-- Where `readmem` returns `true` it has stored the bytes behind the data, if there was a
block, in a buffer that has one. -/
theorem readmem_store (h : b.readmem w mem ma re = some (b', true)) :
    ∃ c : Safebuffer, c.pbuffer ≠ none ∧ c.offset = b.offset ∧
      c.datalen = (if b.pbuffer = none then 0 else b.datalen) ∧ b' = c.store w mem := by
  cases hb : b.pbuffer with
  | none =>
    rw [readmem_of_fresh hb] at h
    obtain ⟨blk, -, he⟩ := Option.map_eq_some_iff.mp h
    obtain ⟨rfl, -⟩ := Prod.mk.inj he
    rw [if_pos rfl]
    exact ⟨Safebuffer.mk (some _) _ 0 b.offset, Option.some_ne_none _, rfl, rfl, rfl⟩
  | some blk =>
    rw [if_neg (Option.some_ne_none blk)]
    rcases Nat.lt_or_ge mem.length (ulongSub w b.bufferlen b.datalen) with hroom | hroom
    · rw [readmem_of_room hb hroom] at h
      exact ⟨b, hb ▸ Option.some_ne_none blk, rfl, rfl, (Prod.mk.inj (Option.some.inj h)).1.symm⟩
    · rw [readmem_of_growth hb hroom] at h
      obtain ⟨-, -, he⟩ | ⟨ht, ho, hd, hp⟩ :=
        resize_cases (w := w) b (ulong w (b.datalen + roundUp w mem.length)) re
      · simp only [he, Bool.false_eq_true, if_false] at h
        cases h
      · simp only [ht, if_true] at h
        refine ⟨_, fun hn => ?_, ho, hd, (Prod.mk.inj (Option.some.inj h)).1.symm⟩
        exact Option.some_ne_none blk (hb.symm.trans (hp hn))

theorem contents_store (hb : b.pbuffer ≠ none) (hd : b.datalen = 0) (hl : mem.length < 2 ^ w) :
    (b.store w mem).contents = mem := by
  obtain ⟨blk, hb⟩ := Option.ne_none_iff_exists'.mp hb
  have ht := take_memcpy (d := blk.bytes) (c := mem) (Nat.zero_le _)
  simpa only [Safebuffer.store, contents, hb, hd, Option.map_some, Nat.zero_add, ulong_of_lt hl,
    List.take_zero, List.nil_append] using ht

/-- The state left behind is the one before exactly if there was nothing to lose. -/
theorem unharmed_lost_iff : Unharmed w b b.lost ↔ b.datalen = 0 ∧ b.bufferlen = 0 := by
  constructor
  · intro h
    have hd : 0 = b.datalen := congrArg (fun v => v.2.1) h.view
    have hn : 0 = b.bufferlen := congrArg (fun v => v.2.2.1) h.view
    exact ⟨hd.symm, hn.symm⟩
  · rintro ⟨hd, hn⟩
    have hc : b.contents = [] := by
      unfold contents
      split
      · rw [hd, List.take_zero]
      · rfl
    constructor
    · simp only [view, hc, hd, hn]
      rfl
    · intro mem ma re c hl h
      rw [readmem_of_fresh rfl] at h
      obtain ⟨blk, -, he⟩ := Option.map_eq_some_iff.mp h
      obtain ⟨rfl, -⟩ := Prod.mk.inj he
      rw [hc, List.nil_append]
      exact contents_store (Option.some_ne_none _) rfl hl

end Safebuffer

namespace Buffers

open Safebuffer

variable {w i : ℕ} {s s' : Buffers} {a : Op} {es : List Returned} {b b' : Safebuffer}

/-- No `readmem` and no `resize` that returns `false` harms its buffer. -/
def FailuresHarmless (w : ℕ) (G : Buffers → Op → Prop) : Prop :=
  ∀ tr s a s' es, (buffers w).Reach G tr s → G s a → s.step w a = some (s', es) →
    ∀ i b b', ⟨i, false⟩ ∈ es → s i = some b → s' i = some b' → Unharmed w b b'

/-- Where the allocator refuses a larger block, the buffer has neither data nor capacity. -/
def growsFromNothing (w : ℕ) (s : Buffers) : Op → Prop
  | .readmem i mem _ re =>
    ∀ b, s i = some b → re.ok = false → b.Grows w mem.length → b.datalen = 0 ∧ b.bufferlen = 0
  | .resize i len re =>
    ∀ b, s i = some b → re.ok = false → b.bufferlen < len → b.datalen = 0 ∧ b.bufferlen = 0
  | _ => True

theorem step_readmem {mem : List UInt8} {ma re : Answer} (hi : s i = some b)
    (hok : re.ok = false) (hg : b.Grows w mem.length) :
    s.step w (.readmem i mem ma re) = some (update s i (some b.lost), [⟨i, false⟩]) := by
  simp only [Buffers.step, use, call, hi, Option.bind_some, readmem_of_failure hg hok,
    Option.map_some]
  rfl

theorem step_resize {len : ℕ} {re : Answer} (hi : s i = some b) (hok : re.ok = false)
    (hn : b.bufferlen < len) :
    s.step w (.resize i len re) = some (update s i (some b.lost), [⟨i, false⟩]) := by
  simp only [Buffers.step, use, call, hi, Option.bind_some, resize_of_failure hn hok,
    Option.map_some]
  rfl

theorem failed_cases (hs : s.step w a = some (s', es)) (hm : ⟨i, false⟩ ∈ es)
    (hi : s i = some b) (hi' : s' i = some b') : b' = b.lost ∧
    ((∃ mem ma re, a = .readmem i mem ma re ∧ re.ok = false ∧ b.Grows w mem.length) ∨
      ∃ len re, a = .resize i len re ∧ re.ok = false ∧ b.bufferlen < len) := by
  have hmake {j : ℕ} {o : Option Safebuffer} (h : s.make j o = some (s', es)) : False := by
    obtain ⟨-, b, -, -, rfl⟩ := make_cases h
    cases hm
  have huse {j : ℕ} {c : Call} (h : s.use w j c = some (s', es)) :
      i = j ∧ b.call w c = some (b', some false) := by
    obtain ⟨d, p, hj, hp, rfl, rfl⟩ := use_cases h
    obtain ⟨o, hf, he⟩ := Option.map_eq_some_iff.mp (Option.mem_toList.mp hm)
    obtain ⟨rfl, rfl⟩ := Returned.mk.inj he
    obtain rfl := Option.some.inj (hi.symm.trans hj)
    rw [update_self] at hi'
    obtain rfl := Option.some.inj hi'
    exact ⟨rfl, hf ▸ hp⟩
  cases a with
  | construct | copy | ofMem => exact (hmake hs).elim
  | readmem j mem ma re =>
    obtain ⟨rfl, hc⟩ := huse hs
    obtain ⟨⟨c, ok⟩, hr, he⟩ := Option.map_eq_some_iff.mp hc
    obtain ⟨rfl, hok⟩ := Prod.mk.inj he
    obtain rfl := Option.some.inj hok
    obtain ⟨hg, hf, rfl⟩ := readmem_failed hr
    exact ⟨rfl, .inl ⟨mem, ma, re, rfl, hf, hg⟩⟩
  | resize j len re =>
    obtain ⟨rfl, hc⟩ := huse hs
    obtain ⟨rfl, hok⟩ := Prod.mk.inj (Option.some.inj hc)
    obtain ⟨hn, hf⟩ := resize_failed (Option.some.inj hok)
    rw [resize_of_failure hn hf]
    exact ⟨rfl, .inr ⟨len, re, rfl, hf, hn⟩⟩
  | clearMem | stepOffset =>
    obtain ⟨-, hc⟩ := huse hs
    cases (Prod.mk.inj (Option.some.inj hc)).2
  | assign j k ma re =>
    obtain ⟨c, -, hu⟩ := Option.bind_eq_some_iff.mp hs
    obtain ⟨-, hc⟩ := huse hu
    obtain ⟨d, -, he⟩ := Option.map_eq_some_iff.mp hc
    cases (Prod.mk.inj he).2
  | swap j k =>
    obtain ⟨c, -, hu⟩ := Option.bind_eq_some_iff.mp hs
    obtain ⟨d, -, he⟩ := Option.map_eq_some_iff.mp hu
    obtain ⟨-, rfl⟩ := Prod.mk.inj he
    cases hm
  | destroy j =>
    obtain ⟨c, -, he⟩ := Option.map_eq_some_iff.mp hs
    obtain ⟨-, rfl⟩ := Prod.mk.inj he
    cases hm

/-- Failures are harmless in exactly the runs in which the allocator refuses a larger block
only to buffers with neither data nor capacity. -/
theorem failuresHarmless_iff (w : ℕ) (G : Buffers → Op → Prop) :
    FailuresHarmless w G ↔ (buffers w).Always G (growsFromNothing w) := by
  constructor
  · intro h tr s a s' es hr hg hs
    cases a with
    | readmem i mem ma re =>
      intro b hi hok hgrows
      have hs' : s.step w (.readmem i mem ma re) = some (_, [⟨i, false⟩]) :=
        step_readmem hi hok hgrows
      exact unharmed_lost_iff.mp
        (h tr s _ _ _ hr hg hs' i b _ (List.mem_singleton_self _) hi (update_self ..))
    | resize i len re =>
      intro b hi hok hn
      have hs' := step_resize (w := w) hi hok hn
      exact unharmed_lost_iff.mp
        (h tr s _ _ _ hr hg hs' i b _ (List.mem_singleton_self _) hi (update_self ..))
    | construct | copy | ofMem | clearMem | stepOffset | assign | swap | destroy => trivial
  · intro h tr s a s' es hr hg hs i b b' hm hi hi'
    have hp := h tr s a s' es hr hg hs
    obtain ⟨rfl, ⟨mem, ma, re, rfl, hok, hgrows⟩ | ⟨len, re, rfl, hok, hn⟩⟩ :=
      failed_cases hs hm hi hi'
    · exact unharmed_lost_iff.mpr (hp b hi hok hgrows)
    · exact unharmed_lost_iff.mpr (hp b hi hok hn)

/-- A buffer of four bytes that holds one, and a `resize` to two thousand that fails. -/
theorem not_failuresHarmless : ¬ FailuresHarmless 32 (anyStep _ _) := by
  let ok (a : ℕ) : Answer := ⟨true, a, fun _ => 0⟩
  obtain ⟨tr, s, hr, hp⟩ := System.exists_run_of_exec (M := buffers 32) (G := anyStep _ _)
    (s := fun _ => none)
    [.construct 0 4 (ok 10), .readmem 0 [7] (ok 11) (ok 11)]
    (p := fun s _ => decide ((s 0).map (fun b => (b.datalen, b.bufferlen)) = some (1, 4)))
    (by decide +kernel)
  obtain ⟨b, hb, he⟩ := Option.map_eq_some_iff.mp (of_decide_eq_true hp)
  obtain ⟨hd, hn⟩ := Prod.mk.inj he
  have hlt : b.bufferlen < 2000 := by omega
  have hs : s.step 32 (.resize 0 2000 ⟨false, 0, fun _ => 0⟩) = some (_, [⟨0, false⟩]) :=
    step_resize hb rfl hlt
  intro h
  have hu := h tr s _ _ _ ⟨_, rfl, hr⟩ trivial hs 0 b b.lost (List.mem_singleton_self _) hb
    (update_self ..)
  exact absurd (hd.symm.trans (unharmed_lost_iff.mp hu).1) Nat.one_ne_zero

end Buffers

end UvWrapper
