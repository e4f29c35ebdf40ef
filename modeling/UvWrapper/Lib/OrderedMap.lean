import Mathlib.Order.Compare
import Mathlib.Order.Lattice
import Mathlib.Tactic.Common

/-! # Reading an ordered map in key order

The values of an ordered map in the order of their keys, as an iteration from its
first to its last entry meets them, and the effect of an insertion that never
overwrites.
-/

namespace OrderedMap

open Std (TreeMap)

variable {κ ν : Type*} [LinearOrder κ] {m : TreeMap κ ν} {k k' : κ} {u v : ν}

def inOrder (m : TreeMap κ ν) : List ν := m.toList.map Prod.snd

theorem mem_inOrder : v ∈ inOrder m ↔ ∃ k : κ, m[k]? = some v := by
  simp only [inOrder, List.mem_map, Prod.exists, exists_eq_right,
    TreeMap.mem_toList_iff_getElem?_eq_some]

theorem mem_inOrder_of_getElem? (h : m[k]? = some v) : v ∈ inOrder m := mem_inOrder.mpr ⟨k, h⟩

theorem mem_inOrder_iff_of_key (h : ∀ j : κ, m[j]? = some v → j = k) :
    v ∈ inOrder m ↔ m[k]? = some v := by
  constructor
  · intro hv
    obtain ⟨j, hj⟩ := mem_inOrder.mp hv
    obtain rfl := h j hj
    exact hj
  · exact mem_inOrder_of_getElem?

theorem inOrder_split (h : m[k]? = some v) :
    ∃ pre post, inOrder m = pre ++ v :: post ∧ ∀ u ∈ pre, ∃ j < k, m[j]? = some u := by
  obtain ⟨pre, post, he⟩ :=
    List.append_of_mem (TreeMap.mem_toList_iff_getElem?_eq_some.mpr h)
  have ho := TreeMap.ordered_keys_toList (t := m)
  rw [he, List.pairwise_append] at ho
  refine ⟨pre.map Prod.snd, post.map Prod.snd, ?_, fun u hu => ?_⟩
  · rw [inOrder, he, List.map_append, List.map_cons]
  · obtain ⟨⟨j, u'⟩, hj, rfl⟩ := List.mem_map.mp hu
    have hlt : compare j k = .lt := ho.2.2 _ hj _ List.mem_cons_self
    refine ⟨j, compare_lt_iff_lt.mp hlt, TreeMap.mem_toList_iff_getElem?_eq_some.mp ?_⟩
    rw [he]
    exact List.mem_append_left _ hj

theorem getElem?_insertIfNew :
    (m.insertIfNew k v)[k']? = if k' = k ∧ m[k]? = none then some v else m[k']? := by
  rw [TreeMap.getElem?_insertIfNew]
  simp only [compare_eq_iff_eq, getElem?_eq_none_iff, eq_comm (a := k)]

theorem getElem?_insertIfNew_of_some (h : m[k']? = some u) :
    (m.insertIfNew k v)[k']? = some u := by
  rw [getElem?_insertIfNew, if_neg, h]
  rintro ⟨rfl, hn⟩
  simp [h] at hn

theorem getElem?_insertIfNew_self : (m.insertIfNew k v)[k]? = some ((m[k]?).getD v) := by
  cases h : m[k]? with
  | none => rw [getElem?_insertIfNew, if_pos ⟨rfl, h⟩, Option.getD_none]
  | some u => rw [getElem?_insertIfNew_of_some h, Option.getD_some]

theorem mem_inOrder_insertIfNew :
    u ∈ inOrder (m.insertIfNew k v) ↔ (m[k]? = none ∧ u = v) ∨ u ∈ inOrder m := by
  constructor
  · intro h
    obtain ⟨j, hj⟩ := mem_inOrder.mp h
    rw [getElem?_insertIfNew] at hj
    split at hj
    · next hk => exact .inl ⟨hk.2, (Option.some.inj hj).symm⟩
    · exact .inr (mem_inOrder.mpr ⟨j, hj⟩)
  · rintro (⟨hn, rfl⟩ | h)
    · exact mem_inOrder.mpr ⟨k, by rw [getElem?_insertIfNew, if_pos ⟨rfl, hn⟩]⟩
    · obtain ⟨j, hj⟩ := mem_inOrder.mp h
      exact mem_inOrder.mpr ⟨j, getElem?_insertIfNew_of_some hj⟩

theorem inOrder_insertIfNew_ne_nil : inOrder (m.insertIfNew k v) ≠ [] := by
  cases h : m[k]? with
  | none =>
    have hm : v ∈ inOrder (m.insertIfNew k v) := mem_inOrder_insertIfNew.mpr (.inl ⟨h, rfl⟩)
    exact List.ne_nil_of_mem hm
  | some u =>
    have hm : u ∈ inOrder (m.insertIfNew k v) :=
      mem_inOrder_insertIfNew.mpr (.inr (mem_inOrder_of_getElem? h))
    exact List.ne_nil_of_mem hm

end OrderedMap
