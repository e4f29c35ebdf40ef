import UvWrapper.Lib.System

/-! # First in, first out

A queue into which runs of elements are put and from which runs are taken, at most what is
there. Between two clearings what was put in is what was taken out and what is left.
-/

namespace Fifo

open Transition

variable {α : Type*}

inductive Op (α : Type*)
  | put (xs : List α)
  | take (n : ℕ)
  | clear

inductive Event (α : Type*)
  | put (xs : List α)
  | took (xs : List α)
  | cleared
  deriving DecidableEq

def step (q : List α) : Op α → Option (List α × List (Event α))
  | .put xs => some (q ++ xs, [.put xs])
  | .take n => if n ≤ q.length then some (q.drop n, [.took (q.take n)]) else none
  | .clear => some ([], [.cleared])

def queue (α : Type*) : System (List α) (Op α) (Event α) := ⟨fun q => q = [], step⟩

def puts (acc : List α) : List (Event α) → List α
  | [] => acc
  | .put xs :: es => puts (acc ++ xs) es
  | .took _ :: es => puts acc es
  | .cleared :: es => puts [] es

def takes (acc : List α) : List (Event α) → List α
  | [] => acc
  | .put _ :: es => takes acc es
  | .took xs :: es => takes (acc ++ xs) es
  | .cleared :: es => takes [] es

variable {q q' : List α} {a : Op α} {es tr : List (Event α)} {G : List α → Op α → Prop}

theorem puts_append (acc : List α) (tr es : List (Event α)) :
    puts acc (tr ++ es) = puts (puts acc tr) es := by
  induction tr generalizing acc with
  | nil => rfl
  | cons e tr ih => cases e <;> exact ih _

theorem takes_append (acc : List α) (tr es : List (Event α)) :
    takes acc (tr ++ es) = takes (takes acc tr) es := by
  induction tr generalizing acc with
  | nil => rfl
  | cons e tr ih => cases e <;> exact ih _

/-- What is taken comes in the order in which it was put in, and nothing is left out. -/
theorem conserved (h : (queue α).Reach G tr q) : takes [] tr ++ q = puts [] tr := by
  refine h.invariant (I := fun tr q => takes [] tr ++ q = puts [] tr) ?_ ?_
  · rintro q rfl
    rfl
  · intro tr q a q' es _ ih _ hs
    rw [takes_append, puts_append, ← ih]
    cases a with
    | put xs =>
      obtain ⟨rfl, rfl⟩ := Prod.mk.inj (Option.some.inj hs)
      exact (List.append_assoc ..).symm
    | take n =>
      obtain ⟨-, hs⟩ := Option.ite_none_right_eq_some.mp hs
      obtain ⟨rfl, rfl⟩ := Prod.mk.inj (Option.some.inj hs)
      simp only [takes, puts, List.append_assoc, List.take_append_drop]
    | clear =>
      obtain ⟨rfl, rfl⟩ := Prod.mk.inj (Option.some.inj hs)
      rfl

end Fifo
