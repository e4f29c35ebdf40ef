import UvWrapper.Lib.Scan
import UvWrapper.Loop.Threads

/-! # The order in which requests run

libuv visits the handles in the order of their registration, pass by pass, and runs the
callbacks of those that are signalled. The requests that wait for the loop thread are then
a queue in the order of its next visits; which end of that queue a request joins is a
matter of the handle it takes.
-/

namespace UvWrapper.Uvloop

open Function

variable {Cb β : Type} {k : Cb → Option β} {l l' : Uvloop Cb} {es : List (Event Cb)}
  {fill : Fill Cb} {h : ℕ}

def carried (k : Cb → Option β) (l : Uvloop Cb) (h : ℕ) : Option β := (l.carries h).bind k

/-- What `k` reads off the waiting requests, in the order of the next visits. -/
def upcoming (k : Cb → Option β) (l : Uvloop Cb) : List β :=
  Scan.found asyncHandles l.cursor (l.carried k)

/-- The loop thread fires no handle but the one its pass has reached. -/
def inPasses (l : Uvloop Cb) : Turn → Prop
  | .fire h => h = l.cursor
  | _ => True

instance (l : Uvloop Cb) : DecidablePred l.inPasses := fun a =>
  match a with
  | .fire h => inferInstanceAs (Decidable (h = l.cursor))
  | .tcbReturn | .recycle | .skip | .newPass | .leave | .clearRunning => .isTrue trivial

theorem upcoming_congr (hc : l'.cursor = l.cursor) (h : l'.carries = l.carries) :
    l'.upcoming k = l.upcoming k := by
  have hk : l'.carried k = l.carried k := by
    ext x : 1
    rw [carried, h, carried]
  rw [upcoming, hc, hk, upcoming]

theorem Inv.carried_of_fire (hi : l.Inv) (ht : l.turn (.fire h) = some (l', es)) :
    l'.carried k = update (l.carried k) h none := by
  ext x : 1
  rcases eq_or_ne x h with rfl | hx
  · simp [carried, hi.turn_carries ht]
  · simp [carried, hi.turn_carries ht, hx, hx.symm]

theorem Inv.carries_of_turn (hi : l.Inv) {a : Turn} (ht : l.turn a = some (l', es))
    (ha : ∀ h, a ≠ .fire h) : l'.carries = l.carries := by
  ext x : 1
  rw [hi.turn_carries ht, if_neg (ha x)]

theorem Inv.upcoming_of_fire (hi : l.Inv) (ht : l.turn (.fire h) = some (l', es))
    (hp : l.inPasses (.fire h)) :
    l.upcoming k = (l.carried k h).toList ++ l'.upcoming k := by
  obtain rfl : h = l.cursor := hp
  have hcarry : l'.carried k = update (l.carried k) l.cursor none := hi.carried_of_fire ht
  have hcursor : l.cursor < asyncHandles ∧ l'.cursor = l.cursor + 1 := by
    cases hi.turn_cases ht with
    | fireStop _ _ hs | fire _ _ _ hs => exact ⟨hi.lt_of_signalled hs, rfl⟩
  rw [upcoming, Scan.found_pass hcursor.1, upcoming, hcarry, hcursor.2]

theorem Inv.upcoming_of_turn (hi : l.Inv) {a : Turn} (ht : l.turn a = some (l', es))
    (ha : ∀ h, a ≠ .fire h) : l'.upcoming k = l.upcoming k := by
  have hcarry : l'.carries = l.carries := hi.carries_of_turn ht ha
  cases hi.turn_cases ht with
  | fireStop h | fire h => exact (ha h rfl).elim
  | skip _ hc hs =>
    have hnone : l.carried k l.cursor = none := by simp [carried, carries, hs]
    exact (Scan.found_skip hc hnone : _)
  | newPass _ hc =>
    have hend : l.cursor = asyncHandles := Nat.le_antisymm hi.cursor hc
    rw [upcoming, upcoming, hend, Scan.found_wrap]
    rfl
  | tcbReturn | recycle | leave | clearRunning => exact upcoming_congr rfl hcarry

theorem Inv.lt_of_take (hi : l.Inv) (ht : l.takeAsync fill.apply = some (h, l')) :
    h < asyncHandles ∧ l.dAsync.head? = some h := by
  obtain ⟨htake, -⟩ := Recycling.Pool.take_cases (takeAsync_cases ht).1
  have hd : l.dAsync = h :: l'.dAsync := htake
  exact ⟨(hi.knows h).mp (.inl (by simp [pool, hd])), by rw [hd, List.head?_cons]⟩

theorem Inv.carried_of_take (hi : l.Inv) (ht : l.takeAsync fill.apply = some (h, l')) :
    l.carried k h = none ∧ l'.carried k = update (l.carried k) h (fill.callback.bind k) ∧
      l'.cursor = l.cursor := by
  obtain ⟨hnone, hcarry⟩ := hi.carries_of_take ht
  refine ⟨by simp [carried, hnone], ?_, by rw [(takeAsync_cases ht).2]⟩
  ext x : 1
  rcases eq_or_ne x h with rfl | hx
  · simp [carried, hcarry]
  · simp [carried, hcarry, hx]

theorem Inv.upcoming_of_other (hi : l.Inv) (ht : l.takeAsync fill.apply = some (h, l'))
    (hk : fill.callback.bind k = none) : l'.upcoming k = l.upcoming k := by
  obtain ⟨hnone, hcarried, hc⟩ := hi.carried_of_take (k := k) ht
  rw [upcoming, hc, hcarried, hk, ← hnone, update_eq_self, upcoming]

/-- A new request joins the end of the queue exactly if it takes a handle after which nothing
waits. -/
theorem Inv.upcoming_of_take_iff (hi : l.Inv) {b : β}
    (ht : l.takeAsync fill.apply = some (h, l')) (hk : fill.callback.bind k = some b)
    (hb : b ∉ l.upcoming k) : l'.upcoming k = l.upcoming k ++ [b] ↔
      ∀ x ∈ Scan.beyond asyncHandles l.cursor h, l.carried k x = none := by
  obtain ⟨hnone, hcarried, hc⟩ := hi.carried_of_take (k := k) ht
  rw [upcoming, hc, hcarried, hk, upcoming]
  exact Scan.found_put_iff (hi.lt_of_take ht).1 hnone hb

theorem Threads.upcoming_of_quiet {s s' : Threads Cb} {a : Act Cb}
    (hs : s.step a = some (s', es)) (hl : ∀ t, a ≠ .lock t) (ht : ∀ b, a ≠ .turn b) :
    s'.loop.upcoming k = s.loop.upcoming k := by
  refine upcoming_congr ?_ (carries_of_quiet hs hl ht)
  cases step_cases hs with
  | called | refused | setRunning => rfl
  | lock t => exact (hl t rfl).elim
  | turn b => exact (ht b rfl).elim
  | run t loop _ hsp => rw [(spawn_cases hsp).2.2]

theorem Threads.running_kept {s s' : Threads Cb} {a : Act Cb} (hs : s.step a = some (s', es))
    (ht : ∀ b, a ≠ .turn b) (hp : s.loop.position = .running h) :
    s'.loop.position = .running h := by
  cases step_cases hs with
  | called | refused | setRunning => exact hp
  | lock t fill =>
    rcases submit_cases s.loop fill with ⟨-, he⟩ | ⟨x, l', htake, he⟩
    · rw [he, hp]
    · rw [he, (takeAsync_cases htake).2, hp]
  | turn b => exact (ht b rfl).elim
  | run t loop _ hsp => cases hp.symm.trans (spawn_cases hsp).2.1

theorem turn_of_running {a : Turn} (ht : l.turn a = some (l', es)) (hp : l.position = .running h) :
    a = .tcbReturn := by
  cases a with
  | tcbReturn => rfl
  | fire | recycle | skip | newPass | leave | clearRunning => simp [turn, hp] at ht

/-- Only the loop thread runs requests, and unless they stop the loop it is then in their
callback. -/
theorem ran_of_turn {b : Turn} {st : StAsync Cb} (ht : l.turn b = some (l', es))
    (hm : .ran h st ∈ es) (he : st.eEvent ≠ .loopStop) :
    b = .fire h ∧ st = l.async h ∧ l'.position = .running h := by
  cases b with
  | fire x =>
    obtain ⟨-, hc⟩ := Option.ite_none_right_eq_some.mp ht
    have hc := Option.some.inj hc
    unfold callback at hc
    dsimp only at hc
    split at hc
    · next hstop =>
      obtain ⟨rfl, rfl⟩ := Prod.mk.inj hc
      obtain ⟨rfl, rfl⟩ := Event.ran.inj (List.mem_singleton.mp hm)
      exact (he hstop).elim
    · split at hc
      · obtain ⟨rfl, rfl⟩ := Prod.mk.inj hc
        obtain ⟨rfl, rfl⟩ := Event.ran.inj (List.mem_singleton.mp hm)
        exact ⟨rfl, rfl, rfl⟩
      · obtain ⟨rfl, rfl⟩ := Prod.mk.inj hc
        cases List.mem_singleton.mp hm
  | recycle =>
    simp only [turn, recycleAsync] at ht
    split at ht
    · split at ht <;> obtain ⟨rfl, rfl⟩ := Prod.mk.inj (Option.some.inj ht) <;>
        cases List.mem_singleton.mp hm
    · contradiction
  | tcbReturn | leave =>
    simp only [turn] at ht
    split at ht
    · obtain ⟨rfl, rfl⟩ := Prod.mk.inj (Option.some.inj ht)
      cases hm
    · contradiction
  | skip | newPass | clearRunning =>
    obtain ⟨-, hc⟩ := Option.ite_none_right_eq_some.mp ht
    obtain ⟨rfl, rfl⟩ := Prod.mk.inj (Option.some.inj hc)
    cases hm

theorem Threads.ran_of_step {s s' : Threads Cb} {a : Act Cb} {st : StAsync Cb}
    (hs : s.step a = some (s', es)) (hm : .ran h st ∈ es) (he : st.eEvent ≠ .loopStop) :
    a = .turn (.fire h) ∧ st = s.loop.async h ∧ s'.loop.position = .running h := by
  cases step_cases hs with
  | called | refused | setRunning | run => simp at hm
  | lock t fill =>
    rcases submit_cases s.loop fill with ⟨-, hl⟩ | ⟨x, l', -, hl⟩ <;> simp [hl] at hm
  | turn b loop es ht =>
    obtain ⟨rfl, hst, hp⟩ := ran_of_turn ht hm he
    exact ⟨rfl, hst, hp⟩

end UvWrapper.Uvloop
