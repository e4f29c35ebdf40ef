import UvWrapper.Util.Objects

/-! # Exchanging two buffers

`swap` exchanges the blocks and the capacities. The data length of the object it is called
on overwrites the other's and is then copied back, and the read offsets stay where they are.
The exchange is complete exactly between buffers that agree in both.
-/

namespace UvWrapper

open Function Memory Transition

namespace Safebuffer

variable {w : ℕ} {b c : Safebuffer}

def calls (w : ℕ) (b : Safebuffer) : List Call → Option (Safebuffer × List (Option Bool))
  | [] => some (b, [])
  | c :: cs => (b.call w c).bind fun p => (p.1.calls w cs).map fun q => (q.1, p.2 :: q.2)

/-- All that a caller can read from a buffer: its data, their length, the capacity and the
read offset. -/
def view (b : Safebuffer) : List UInt8 × ℕ × ℕ × ℕ :=
  (b.contents, b.datalen, b.bufferlen, b.offset)

structure Exchanges (w : ℕ) (b c : Safebuffer) : Prop where
  view : (b.swap c).1.view = c.view ∧ (b.swap c).2.view = b.view
  bounded : (b.swap c).1.datalen ≤ (b.swap c).1.bufferlen ∧
    (b.swap c).2.datalen ≤ (b.swap c).2.bufferlen
  restored : (b.swap c).1.swap (b.swap c).2 = (b, c)
  later : ∀ cs, (b.swap c).1.calls w cs = c.calls w cs ∧ (b.swap c).2.calls w cs = b.calls w cs

theorem swap_of_eq (hd : b.datalen = c.datalen) (ho : b.offset = c.offset) :
    b.swap c = (c, b) := by
  obtain ⟨p, n, d, o⟩ := b
  obtain ⟨q, m, e, r⟩ := c
  obtain rfl : d = e := hd
  obtain rfl : o = r := ho
  rfl

theorem Exchanges.datalen_eq (h : Exchanges w b c) : b.datalen = c.datalen :=
  congrArg (fun v => v.2.1) h.view.1

theorem Exchanges.offset_eq (h : Exchanges w b c) : b.offset = c.offset :=
  congrArg (fun v => v.2.2.2) h.view.1

/-- `swap` exchanges two buffers exactly if their data lengths agree, their read offsets
agree, and neither holds more data than it has room for. -/
theorem exchanges_iff (w : ℕ) (b c : Safebuffer) : Exchanges w b c ↔
    b.datalen = c.datalen ∧ b.offset = c.offset ∧
      b.datalen ≤ b.bufferlen ∧ c.datalen ≤ c.bufferlen := by
  constructor
  · intro h
    have hd := h.datalen_eq
    refine ⟨hd, h.offset_eq, h.bounded.2, ?_⟩
    rw [← hd]
    exact h.bounded.1
  · rintro ⟨hd, ho, hb, hc⟩
    have hs : b.swap c = (c, b) := swap_of_eq hd ho
    constructor
    · rw [hs]
      exact ⟨rfl, rfl⟩
    · rw [hs]
      exact ⟨hc, hb⟩
    · rw [hs]
      exact swap_of_eq hd.symm ho.symm
    · rw [hs]
      exact fun cs => ⟨rfl, rfl⟩

end Safebuffer

namespace Buffers

/-- Any two buffers that the operations of the class lead to are exchanged by `swap`. -/
def SwapExchanges (w : ℕ) : Prop :=
  ∀ tr s i j b c, (buffers w).Reach (anyStep _ _) tr s → i ≠ j → s i = some b → s j = some c →
    Safebuffer.Exchanges w b c

/-- An empty buffer and one that holds a byte. -/
theorem not_swapExchanges : ¬ SwapExchanges 32 := by
  let ok (a : ℕ) : Answer := ⟨true, a, fun _ => 0⟩
  obtain ⟨tr, s, hr, hp⟩ := System.exists_run_of_exec (M := buffers 32) (G := anyStep _ _)
    (s := fun _ => none)
    [.construct 0 4 (ok 10), .construct 1 4 (ok 11), .readmem 1 [7] (ok 12) (ok 12)]
    (p := fun s _ => decide ((s 0).map Safebuffer.datalen = some 0 ∧
      (s 1).map Safebuffer.datalen = some 1)) (by decide +kernel)
  obtain ⟨h₀, h₁⟩ := of_decide_eq_true hp
  obtain ⟨b, hb, hd⟩ := Option.map_eq_some_iff.mp h₀
  obtain ⟨c, hc, he⟩ := Option.map_eq_some_iff.mp h₁
  intro h
  have hx := h tr s 0 1 b c ⟨_, rfl, hr⟩ Nat.zero_ne_one hb hc
  exact absurd (hd.symm.trans (hx.datalen_eq.trans he)) Nat.zero_ne_one

end Buffers

end UvWrapper
