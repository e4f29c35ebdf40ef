import UvWrapper.Lib.Fifo
import UvWrapper.Lib.Simulation
import UvWrapper.Util.Cursor

/-! # The buffer as a queue of bytes

A buffer whose data is read at its read offset, which is then moved by what was read. To its
user it is a queue: what `readmem` appends is read in this order, whenever the block grows.
-/

namespace UvWrapper

open Memory Transition

namespace Safebuffer

variable {w n : ℕ} {b b' : Safebuffer} {l mem : List UInt8}

def peek (b : Safebuffer) (n : ℕ) : List UInt8 :=
  match b.pbuffer with
  | some blk => (blk.bytes.drop b.offset).take n
  | none => []

def unread (b : Safebuffer) : List UInt8 := b.contents.drop b.offset

/-- The uses of a buffer as a queue: appending, reading `n` bytes and moving the offset,
resizing, clearing. -/
inductive Usage
  | readmem (mem : List UInt8) (ma re : Answer)
  | read (n : ℕ)
  | resize (len : ℕ) (re : Answer)
  | clearMem

def usage (w : ℕ) (b : Safebuffer) : Usage → Option (Safebuffer × List (Fifo.Event UInt8))
  | .readmem mem ma re => (b.readmem w mem ma re).map fun p => (p.1, [.put mem])
  | .read n => some (b.stepOffset w n, [.took (b.peek n)])
  | .resize len re => some ((b.resize w len re).1, [])
  | .clearMem => some (b.clearMem, [.cleared])

def queueing (w : ℕ) : System Safebuffer Usage (Fifo.Event UInt8) where
  init b := ∃ bufflen ma, 1 ≤ bufflen ∧ bufflen < 2 ^ w ∧ construct bufflen ma = some b
  step := usage w

/-- `realloc` succeeds, the lengths stay below the limit, and no more is read than
`getDataLength() - GetCurrentReadOffset()`. -/
def reads (w : ℕ) (b : Safebuffer) : Usage → Prop
  | .readmem mem _ re => b.datalen + mem.length + 2048 < 2 ^ w ∧ re.ok = true
  | .read n => n ≤ b.datalen - b.offset
  | .resize len re => len < 2 ^ w ∧ re.ok = true
  | .clearMem => True

instance (w : ℕ) : DecidableRel (reads w) := fun _ a =>
  match a with
  | .readmem _ _ _ | .resize _ _ => inferInstanceAs (Decidable (_ ∧ _))
  | .read _ => inferInstanceAs (Decidable (_ ≤ _))
  | .clearMem => .isTrue trivial

/-- The buffer holds its data, and the read offset is inside. -/
def Queued (w : ℕ) (b : Safebuffer) : Prop := ∃ l, b.Holds w l ∧ b.offset ≤ l.length

theorem Holds.unread (h : b.Holds w l) : b.unread = l.drop b.offset := by
  rw [Safebuffer.unread, h.contents]

theorem Holds.peek (h : b.Holds w l) (hn : b.offset + n ≤ l.length) :
    b.peek n = (l.drop b.offset).take n := by
  obtain ⟨a, hb⟩ := h.block
  simp only [Safebuffer.peek, hb]
  rw [List.drop_append_of_le_length (by omega),
    List.take_append_of_le_length (by rw [List.length_drop]; omega)]

theorem matches_queue (w : ℕ) : (queueing w).Matches (Fifo.queue UInt8) (reads w)
    (anyStep _ _) (Queued w) unread some some := by
  rintro b a b' es ⟨l, hl, ho⟩ hg hs
  cases a with
  | readmem mem ma re =>
    obtain ⟨hlen, hok⟩ := hg
    rw [hl.datalen_eq] at hlen
    obtain ⟨b₁, hr, hl', -⟩ := hl.readmem mem ma re (by simp only [defaultBufferLen]; omega) hok
    obtain ⟨p, hp, he⟩ := Option.map_eq_some_iff.mp hs
    obtain rfl := Option.some.inj (hr.symm.trans hp)
    obtain ⟨rfl, rfl⟩ := Prod.mk.inj he
    have hoff := readmem_offset hr
    refine ⟨⟨l ++ mem, hl', ?_⟩, [.put mem], .of_step (b := .put mem) trivial ?_, rfl⟩
    · rw [hoff, List.length_append]
      omega
    · rw [hl.unread, hl'.unread, hoff, List.drop_append_of_le_length ho]
      rfl
  | read n =>
    obtain ⟨rfl, rfl⟩ := Prod.mk.inj (Option.some.inj hs)
    have hd := hl.datalen_eq
    have hlt := hl.length_lt
    have hw := hl.bufferlen_lt
    have hn : n ≤ b.datalen - b.offset := hg
    have hoff : (b.stepOffset w n).offset = b.offset + n := ulong_of_lt (by omega)
    have hl' : (b.stepOffset w n).Holds w l := ⟨hl.block, hd, hlt, hw⟩
    refine ⟨⟨l, hl', by omega⟩, [.took (b.peek n)], .of_step (b := .take n) trivial ?_, rfl⟩
    rw [hl.unread, hl'.unread, hoff, hl.peek (by omega)]
    have hle : n ≤ (l.drop b.offset).length := by
      rw [List.length_drop]
      omega
    refine (if_pos hle).trans ?_
    rw [List.drop_drop]
  | resize len re =>
    obtain ⟨rfl, rfl⟩ := Prod.mk.inj (Option.some.inj hs)
    obtain ⟨-, hl', -⟩ := hl.resize len re hg.1 hg.2
    have hoff : (b.resize w len re).1.offset = b.offset := by
      obtain ⟨-, hok, -⟩ | ⟨-, hoff, -⟩ := resize_cases (w := w) b len re
      · exact (Bool.false_ne_true (hok.symm.trans hg.2)).elim
      · exact hoff
    refine ⟨⟨l, hl', hoff ▸ ho⟩, [], .of_eq ?_, rfl⟩
    rw [hl.unread, hl'.unread, hoff]
  | clearMem =>
    obtain ⟨rfl, rfl⟩ := Prod.mk.inj (Option.some.inj hs)
    obtain ⟨hl', -⟩ := hl.clearMem
    refine ⟨⟨[], hl', Nat.le_refl 0⟩, [.cleared], .of_step (b := .clear) trivial ?_, rfl⟩
    rw [hl'.unread]
    rfl

structure FirstInFirstOut (tr : List (Fifo.Event UInt8)) (b : Safebuffer) : Prop where
  /-- Its history is one of a queue. -/
  refines : (Fifo.queue UInt8).Reach (anyStep _ _) tr b.unread
  /-- Since it was last cleared, what was read is the front of what was appended. -/
  conserved : Fifo.takes [] tr ++ b.unread = Fifo.puts [] tr

theorem queue_of_reach {tr : List (Fifo.Event UInt8)} (h : (queueing w).Reach (reads w) tr b) :
    FirstInFirstOut tr b := by
  have hinit : ∀ b, (queueing w).init b → b.Queued w ∧ (Fifo.queue UInt8).init b.unread := by
    rintro b ⟨bufflen, ma, h1, hlt, hc⟩
    obtain ⟨hl, -⟩ := holds_construct h1 hlt hc
    obtain ⟨blk, -, rfl⟩ := Option.map_eq_some_iff.mp hc
    exact ⟨⟨[], hl, Nat.le_refl 0⟩, hl.unread⟩
  obtain ⟨-, fs, hr, he⟩ := (matches_queue w).reach hinit h
  rw [List.filterMap_some, List.filterMap_some] at he
  subst he
  exact ⟨hr, Fifo.conserved hr⟩

/-- A buffer of four bytes that grows between two reads. -/
theorem queue_of_reach_example : ∃ tr b, (queueing 16).Reach (reads 16) tr b ∧
    tr = [.put [1, 2, 3], .took [1, 2], .put [4, 5], .took [3, 4]] ∧ b.bufferlen = 1027 ∧
      FirstInFirstOut tr b := by
  obtain ⟨tr, b, hr, hp⟩ := System.exists_run_of_exec (M := queueing 16) (G := reads 16)
    (s := ⟨some ⟨1, List.replicate 4 0⟩, 4, 0, 0⟩)
    [.readmem [1, 2, 3] ⟨true, 2, fun _ => 9⟩ ⟨true, 3, fun _ => 9⟩, .read 2,
      .readmem [4, 5] ⟨true, 2, fun _ => 9⟩ ⟨true, 3, fun _ => 9⟩, .read 2]
    (p := fun b tr => decide (tr = [.put [1, 2, 3], .took [1, 2], .put [4, 5], .took [3, 4]] ∧
      b.bufferlen = 1027)) (by decide +kernel)
  have h : (queueing 16).Reach (reads 16) tr b :=
    ⟨_, ⟨4, ⟨true, 1, fun _ => 9⟩, by decide, by decide, rfl⟩, hr⟩
  exact ⟨tr, b, h, (of_decide_eq_true hp).1, (of_decide_eq_true hp).2, queue_of_reach h⟩

end Safebuffer

end UvWrapper
