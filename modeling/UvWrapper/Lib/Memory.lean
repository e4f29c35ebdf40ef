import Mathlib.Data.List.TakeDrop
import Mathlib.Tactic.Common

/-! # Byte blocks

Blocks of bytes with an address, the answers of an allocator that may fail or move
a block, and the C copy functions. The prefix of a block below a fill mark is read
as a byte list: copying at the mark appends, moving the tail down removes a prefix.
-/

namespace Memory

/-- An allocated block. Two live blocks are the same exactly if their addresses agree. -/
structure Block where
  addr : ℕ
  bytes : List UInt8
  deriving DecidableEq

/-- What the allocator answers to one request: failure, or an address whose fresh
bytes are arbitrary. -/
structure Answer where
  ok : Bool
  addr : ℕ
  garbage : ℕ → UInt8

def malloc (a : Answer) (n : ℕ) : Option Block :=
  if a.ok then some ⟨a.addr, (List.range n).map a.garbage⟩ else none

/-- The old bytes are kept up to the smaller size; a null pointer has none. -/
def realloc (a : Answer) (p : Option Block) (n : ℕ) : Option Block :=
  let old := (p.map Block.bytes).getD []
  if a.ok then
    some ⟨a.addr, old.take n ++ (List.range (n - old.length)).map a.garbage⟩
  else none

/-- C allows only copies that end inside the block; one that does not shows as a block longer
than before. -/
def memcpy (d : List UInt8) (off : ℕ) (c : List UInt8) : List UInt8 :=
  d.take off ++ c ++ d.drop (off + c.length)

def memset (d : List UInt8) (off : ℕ) (v : UInt8) (n : ℕ) : List UInt8 :=
  memcpy d off (List.replicate n v)

def memmove (p : List UInt8) (n k : ℕ) : List UInt8 :=
  memcpy p 0 ((p.drop n).take k)

section Copy

variable {d c : List UInt8} {off n k : ℕ} {v : UInt8}

@[simp] theorem length_memcpy (h : off + c.length ≤ d.length) :
    (memcpy d off c).length = d.length := by
  simp [memcpy]; omega

theorem length_memcpy_iff (h : off ≤ d.length) :
    (memcpy d off c).length = d.length ↔ off + c.length ≤ d.length := by
  simp only [memcpy, List.length_append, List.length_take, List.length_drop]
  omega

@[simp] theorem length_memset (h : off + n ≤ d.length) :
    (memset d off v n).length = d.length := by
  simp [memset, h]

@[simp] theorem length_memmove (h : k ≤ d.length) :
    (memmove d n k).length = d.length := by
  apply length_memcpy
  simp only [List.length_take, List.length_drop]; omega

/-- Copying at the fill mark appends to the bytes below it. -/
theorem take_memcpy (h : off ≤ d.length) :
    (memcpy d off c).take (off + c.length) = d.take off ++ c := by
  have hl : (d.take off ++ c).length = off + c.length := by simp [h]
  rw [memcpy, ← hl, List.take_left']
  rfl

theorem take_memcpy_below (hn : n ≤ off) (h : off ≤ d.length) :
    (memcpy d off c).take n = d.take n := by
  rw [memcpy, List.append_assoc, List.take_append_of_le_length (by simp [h, hn]),
    List.take_take, Nat.min_eq_left hn]

@[simp] theorem take_memset_below (hn : n ≤ off) (h : off ≤ d.length) :
    (memset d off v k).take n = d.take n :=
  take_memcpy_below hn h

/-- Moving the tail down drops the first `n` of the `n + k` bytes below the mark. -/
theorem take_memmove (h : n + k ≤ d.length) :
    (memmove d n k).take k = (d.take (n + k)).drop n := by
  have hl : ((d.drop n).take k).length = k := by
    simp only [List.length_take, List.length_drop]; omega
  have ht := take_memcpy (d := d) (c := (d.drop n).take k) (Nat.zero_le _)
  rw [hl, Nat.zero_add, List.take_zero, List.nil_append] at ht
  rw [memmove, ht, List.take_drop]

theorem memset_tail (h : d.length = off + n) :
    memset d off v n = d.take off ++ List.replicate n v := by
  rw [memset, memcpy, List.length_replicate, List.drop_eq_nil_of_le (by omega), List.append_nil]

theorem memset_all (h : d.length = n) : memset d 0 v n = List.replicate n v := by
  rw [memset_tail (by omega), List.take_zero, List.nil_append]

theorem memset_padded : memset (c ++ List.replicate k v) 0 v c.length =
    List.replicate (c.length + k) v := by
  rw [memset, memcpy, List.take_zero, List.nil_append, List.length_replicate, Nat.zero_add,
    List.drop_left, List.replicate_append_replicate]

theorem memcpy_padded (l : List UInt8) : memcpy (l ++ List.replicate k v) l.length c =
    l ++ c ++ List.replicate (k - c.length) v := by
  rw [memcpy, List.take_left, List.drop_append, List.drop_replicate,
    List.drop_eq_nil_of_le (by omega), List.nil_append, Nat.add_sub_cancel_left]

end Copy

section Allocation

variable {a : Answer} {p : Option Block} {b : Block} {n : ℕ}

theorem length_malloc (h : malloc a n = some b) : b.bytes.length = n := by
  unfold malloc at h
  split at h
  · obtain rfl := Option.some.inj h; simp
  · contradiction

theorem addr_malloc (h : malloc a n = some b) : b.addr = a.addr := by
  unfold malloc at h
  split at h
  · obtain rfl := Option.some.inj h; rfl
  · contradiction

theorem addr_realloc (h : realloc a p n = some b) : b.addr = a.addr := by
  simp only [realloc] at h
  split at h
  · obtain rfl := Option.some.inj h; rfl
  · contradiction

theorem realloc_ok (h : a.ok = true) : ∃ b, realloc a p n = some b := by
  simp [realloc, h]

theorem length_realloc (h : realloc a p n = some b) : b.bytes.length = n := by
  simp only [realloc] at h
  split at h
  · obtain rfl := Option.some.inj h
    simp only [List.length_append, List.length_take, List.length_map, List.length_range]
    omega
  · contradiction

theorem take_realloc_of_le {old : Block} {m : ℕ} (h : realloc a (some old) n = some b)
    (ho : m ≤ old.bytes.length) (hn : m ≤ n) : b.bytes.take m = old.bytes.take m := by
  simp only [realloc, Option.map_some, Option.getD_some] at h
  split at h
  · obtain rfl := Option.some.inj h
    rw [List.take_append_of_le_length (by simp only [List.length_take]; omega), List.take_take,
      Nat.min_eq_left hn]
  · contradiction

end Allocation

end Memory
