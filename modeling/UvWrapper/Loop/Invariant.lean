import UvWrapper.Loop.Basic
import UvWrapper.Lib.Update

/-! # The invariant of the handle pool

One lemma for each operation of the loop: the handles in `m_mapAsync` are those that
are signalled or whose callback is running, and every request a handle accepts is the
one its next callback runs. The lemmas hold for any type of callbacks, so that a system
built on the loop uses them for its own requests.
-/

namespace UvWrapper.Uvloop

open Function Recycling

variable {Cb : Type} {l l' : Uvloop Cb} {h x : ℕ} {fill : Fill Cb} {es : List (Event Cb)}

/-- The pool is exact, the handle being run has no signal, a waiting request that is not a
stop has a callback, and a pass does not go beyond the last handle. -/
structure Inv (l : Uvloop Cb) : Prop where
  wellFormed : l.pool.WellFormed
  knows : ∀ x, l.pool.Knows x ↔ x < asyncHandles
  inUse : ∀ x, x ∈ l.mapAsync ↔ l.InUse x
  unsignalled : ∀ x, l.position.handle = some x → l.signalled x = false
  callable : ∀ x, l.signalled x = true → (l.async x).eEvent ≠ .loopStop →
    (l.async x).tcb.isSome
  alive : l.position ≠ .aborted
  cursor : l.cursor ≤ asyncHandles

/-- The values of `AddReq`'s arguments that its users pass. -/
def Fill.Callable : Fill Cb → Prop
  | .addReq eEventType pCallback => eEventType ≠ .loopStop ∧ pCallback.isSome
  | .stop => True

theorem Fill.callable_apply (hf : fill.Callable) (st : StAsync Cb)
    (he : (fill.apply st).eEvent ≠ .loopStop) : (fill.apply st).tcb.isSome := by
  cases fill with
  | addReq => exact hf.2
  | stop => exact (he rfl).elim

theorem create_inv (garbage : ℕ → EType) : (create garbage : Uvloop Cb).Inv where
  wellFormed := ⟨List.nodup_range, by simp [create, pool]⟩
  knows x := by simp [create, pool, Pool.Knows]
  inUse x := by simp [create, InUse, Position.handle]
  unsignalled x hx := by simp [create, Position.handle] at hx
  callable x hx := by simp [create] at hx
  alive := by simp [create]
  cursor := Nat.zero_le _

/-! ## Submitting -/

theorem Inv.not_inUse_of_take (hi : l.Inv) (ht : l.takeAsync fill.apply = some (h, l')) :
    ¬ l.InUse h :=
  fun hu => hi.wellFormed.not_busy_of_take (takeAsync_cases ht).1 ((hi.inUse h).mpr hu)

theorem Inv.takeAsync (hi : l.Inv) (hf : fill.Callable)
    (ht : l.takeAsync fill.apply = some (h, l')) : l'.Inv := by
  obtain ⟨hp, he⟩ := takeAsync_cases ht
  have hn := hi.not_inUse_of_take ht
  have hb : l'.mapAsync = insert h l.mapAsync := (Pool.take_cases hp).2
  have hs : l'.signalled = update l.signalled h true := by rw [he]
  have hpos : l'.position = l.position := by rw [he]
  have ha : l'.async = update l.async h (fill.apply (l.async h)) := by rw [he]
  have hc : l'.cursor = l.cursor := by rw [he]
  constructor
  case wellFormed => exact hi.wellFormed.take hp
  case knows => exact fun x => (Pool.knows_take hp).trans (hi.knows x)
  case inUse =>
    intro x
    have := hi.inUse x
    rcases eq_or_ne x h with rfl | hxh
    · simp [hb, hs, hpos, InUse]
    · simpa [hb, hs, hpos, InUse, hxh] using this
  case unsignalled =>
    intro x hx
    rw [hpos] at hx
    have hxh : x ≠ h := fun e => hn (.inr (e ▸ hx))
    simpa [hs, hxh] using hi.unsignalled x hx
  case callable =>
    intro x hx
    rw [ha]
    rcases eq_or_ne x h with rfl | hxh
    · simpa using fill.callable_apply hf (l.async x)
    · have hx' : l.signalled x = true := by simpa [hs, hxh] using hx
      simpa [hxh] using hi.callable x hx'
  case alive => exact hpos ▸ hi.alive
  case cursor => exact hc ▸ hi.cursor

theorem submit_cases (l : Uvloop Cb) (fill : Fill Cb) :
    (l.dAsync = [] ∧ l.submit fill = (l, [.refused .busy])) ∨
      ∃ h l', l.takeAsync fill.apply = some (h, l') ∧
        l.submit fill = (l', [.accepted h (fill.apply (l.async h)), .asyncSend h]) := by
  cases ht : l.takeAsync fill.apply with
  | none => exact .inl ⟨takeAsync_eq_none.mp ht, by simp [submit, ht]⟩
  | some p =>
    obtain ⟨h, l'⟩ := p
    have ha : l'.async h = fill.apply (l.async h) := by
      rw [(takeAsync_cases ht).2]; simp
    exact .inr ⟨h, l', rfl, by simp [submit, ht, ha]⟩

theorem Inv.submit (hi : l.Inv) (hf : fill.Callable) : (l.submit fill).1.Inv := by
  rcases submit_cases l fill with ⟨-, he⟩ | ⟨h, l', ht, he⟩
  · rw [he]; exact hi
  · rw [he]; exact hi.takeAsync hf ht

/-! ## The loop thread -/

/-- Everything a step of the loop thread can do when the invariant holds. -/
inductive TurnCases (l : Uvloop Cb) : Turn → Uvloop Cb → List (Event Cb) → Prop
  | fireStop (h : ℕ) : l.position = .polling → l.signalled h = true →
      (l.async h).eEvent = .loopStop →
      TurnCases l (.fire h) { l with
        signalled := update l.signalled h false
        cursor := h + 1
        stopFlag := true
        async := update l.async h { l.async h with tcb := none }
        position := .ran h } [.ran h (l.async h)]
  | fire (h : ℕ) (cb : Cb) : l.position = .polling → l.signalled h = true →
      (l.async h).eEvent ≠ .loopStop → (l.async h).tcb = some cb →
      TurnCases l (.fire h) { l with
        signalled := update l.signalled h false
        cursor := h + 1
        position := .running h } [.ran h (l.async h)]
  | tcbReturn (h : ℕ) : l.position = .running h →
      TurnCases l .tcbReturn { l with
        async := update l.async h { l.async h with tcb := none }
        position := .ran h } []
  | recycle (h : ℕ) : l.position = .ran h → h ∈ l.mapAsync →
      TurnCases l .recycle { l with
        dAsync := l.dAsync ++ [h]
        mapAsync := l.mapAsync.erase h
        position := .polling } [.recycled h]
  | skip : l.position = .polling → l.cursor < asyncHandles → l.signalled l.cursor = false →
      TurnCases l .skip { l with cursor := l.cursor + 1 } []
  | newPass : l.position = .polling → asyncHandles ≤ l.cursor →
      TurnCases l .newPass { l with cursor := 0 } []
  | leave : l.position = .polling → l.stopFlag = true →
      TurnCases l .leave { l with stopFlag := false, position := .left } []
  | clearRunning : l.position = .left →
      TurnCases l .clearRunning { l with bRunning := false, position := .down } []

/-- The loop thread announces a request it runs and a handle it recycles. -/
theorem TurnCases.events {a : Turn} (ht : TurnCases l a l' es) :
    es = [] ∨ (∃ h, es = [.ran h (l.async h)]) ∨ ∃ h, es = [.recycled h] := by
  cases ht with
  | fireStop h | fire h => exact .inr (.inl ⟨h, rfl⟩)
  | recycle h => exact .inr (.inr ⟨h, rfl⟩)
  | tcbReturn | skip | newPass | leave | clearRunning => exact .inl rfl

theorem Inv.turn_cases (hi : l.Inv) {a : Turn} (ht : l.turn a = some (l', es)) :
    TurnCases l a l' es := by
  cases a with
  | fire h =>
    simp only [turn] at ht
    split at ht
    · next hg =>
      obtain ⟨hp, hs⟩ := hg
      have hc := Option.some.inj ht
      by_cases he : (l.async h).eEvent = .loopStop
      · simp only [callback, he] at hc
        obtain ⟨rfl, rfl⟩ := Prod.mk.inj hc
        simpa [he] using TurnCases.fireStop h hp hs he
      · obtain ⟨cb, hcb⟩ := Option.isSome_iff_exists.mp (hi.callable h hs he)
        have hf := TurnCases.fire h cb hp hs he hcb
        revert hc
        cases hv : (l.async h).eEvent <;> simp only [callback, hv, hcb] <;> intro hc
        case loopStop => exact (he hv).elim
        all_goals
          obtain ⟨rfl, rfl⟩ := Prod.mk.inj hc
          exact hf
    · contradiction
  | tcbReturn =>
    simp only [turn] at ht
    split at ht
    · next h hp =>
      obtain ⟨rfl, rfl⟩ := Prod.mk.inj (Option.some.inj ht)
      exact .tcbReturn h hp
    · contradiction
  | recycle =>
    simp only [turn] at ht
    split at ht
    · next h hp =>
      have hm : h ∈ l.mapAsync := (hi.inUse h).mpr (.inr (by simp [hp, Position.handle]))
      simp only [recycleAsync, if_pos hm, Option.some.injEq] at ht
      obtain ⟨rfl, rfl⟩ := Prod.mk.inj ht
      exact .recycle h hp hm
    · contradiction
  | skip =>
    simp only [turn] at ht
    split at ht
    · next hg =>
      obtain ⟨rfl, rfl⟩ := Prod.mk.inj (Option.some.inj ht)
      exact .skip hg.1 hg.2.1 hg.2.2
    · contradiction
  | newPass =>
    simp only [turn] at ht
    split at ht
    · next hg =>
      obtain ⟨rfl, rfl⟩ := Prod.mk.inj (Option.some.inj ht)
      exact .newPass hg.1 hg.2
    · contradiction
  | leave =>
    simp only [turn] at ht
    split at ht
    · next hg =>
      obtain ⟨rfl, rfl⟩ := Prod.mk.inj (Option.some.inj ht)
      exact .leave hg.1 hg.2
    · contradiction
  | clearRunning =>
    simp only [turn] at ht
    split at ht
    · next hg =>
      obtain ⟨rfl, rfl⟩ := Prod.mk.inj (Option.some.inj ht)
      exact .clearRunning hg
    · contradiction

theorem Inv.lt_of_signalled (hi : l.Inv) (hs : l.signalled h = true) : h < asyncHandles :=
  (hi.knows h).mp (.inr ((hi.inUse h).mpr (.inl hs)))

theorem Inv.of_fire (hi : l.Inv) (hp : l.position = .polling) (hs : l.signalled h = true)
    {f : ℕ → StAsync Cb} {b : Bool} {p : Position} (hf : ∀ x ≠ h, f x = l.async x)
    (hh : p.handle = some h) : Inv { l with
      signalled := update l.signalled h false
      cursor := h + 1
      stopFlag := b
      async := f
      position := p } := by
  have hnone : l.position.handle = none := by rw [hp]; rfl
  constructor
  case wellFormed => exact hi.wellFormed
  case knows => exact hi.knows
  case inUse =>
    intro x
    rw [hi.inUse x]
    rcases eq_or_ne x h with rfl | hxh
    · simp [InUse, hs, hh]
    · simp [InUse, hnone, hh, hxh, hxh.symm]
  case unsignalled =>
    intro x hx
    obtain rfl : h = x := Option.some.inj (hh.symm.trans hx)
    exact update_self ..
  case callable =>
    intro x hx
    obtain ⟨hxh, hx'⟩ := Update.of_update (by simp) hx
    rw [show Uvloop.async _ x = f x from rfl, hf x hxh]
    exact hi.callable x hx'
  case alive =>
    rintro rfl
    cases hh
  case cursor => exact hi.lt_of_signalled hs

theorem Inv.turn (hi : l.Inv) {a : Turn} (ht : l.turn a = some (l', es)) : l'.Inv := by
  cases hi.turn_cases ht with
  | fireStop h hp hs => exact hi.of_fire hp hs (fun x hx => update_of_ne hx ..) rfl
  | fire h cb hp hs => exact hi.of_fire hp hs (fun _ _ => rfl) rfl
  | tcbReturn h hp =>
    have hh : l.position.handle = some h := by rw [hp]; rfl
    refine ⟨hi.wellFormed, hi.knows, fun x => ?_, fun x hx => ?_, fun x hx => ?_, nofun, hi.cursor⟩
    · rw [hi.inUse x]
      simp [InUse, Position.handle, hp]
    · exact hi.unsignalled x (hh.trans hx)
    · have hxh : x ≠ h := fun e => by simp [e, hi.unsignalled h hh] at hx
      simpa [hxh] using hi.callable x hx
  | recycle h hp hm =>
    have hh : l.position.handle = some h := by rw [hp]; rfl
    have hr := Pool.recycle_of_mem (p := l.pool) hm
    refine ⟨hi.wellFormed.recycle hr, fun x => (Pool.knows_recycle hr).trans (hi.knows x),
      fun x => ?_, nofun, hi.callable, nofun, hi.cursor⟩
    rw [Finset.mem_erase, hi.inUse x]
    rcases eq_or_ne x h with rfl | hxh
    · simp [InUse, Position.handle, hi.unsignalled x hh]
    · simp [InUse, Position.handle, hp, hxh, hxh.symm]
  | skip _ hc =>
    exact ⟨hi.wellFormed, hi.knows, hi.inUse, hi.unsignalled, hi.callable, hi.alive, hc⟩
  | newPass =>
    exact ⟨hi.wellFormed, hi.knows, hi.inUse, hi.unsignalled, hi.callable, hi.alive,
      Nat.zero_le _⟩
  | leave hp =>
    refine ⟨hi.wellFormed, hi.knows, fun x => ?_, nofun, hi.callable, nofun, hi.cursor⟩
    simpa [InUse, Position.handle, hp] using hi.inUse x
  | clearRunning hp =>
    refine ⟨hi.wellFormed, hi.knows, fun x => ?_, nofun, hi.callable, nofun, hi.cursor⟩
    simpa [InUse, Position.handle, hp] using hi.inUse x

theorem spawn_cases (hs : l.spawn = some l') :
    l.bRunning = false ∧ l.position = .down ∧ l' = { l with position := .polling } := by
  unfold spawn at hs
  split at hs
  · next hg => exact ⟨hg.1, hg.2, (Option.some.inj hs).symm⟩
  · contradiction

theorem Inv.spawn (hi : l.Inv) (hs : l.spawn = some l') : l'.Inv := by
  obtain ⟨-, hp, rfl⟩ := spawn_cases hs
  refine ⟨hi.wellFormed, hi.knows, fun x => ?_, nofun, hi.callable, nofun, hi.cursor⟩
  simpa [InUse, Position.handle, hp] using hi.inUse x

theorem Inv.setRunning (hi : l.Inv) (b : Bool) : { l with bRunning := b }.Inv :=
  ⟨hi.wellFormed, hi.knows, hi.inUse, hi.unsignalled, hi.callable, hi.alive, hi.cursor⟩

/-! ## Requests are conserved -/

def acceptedOn (h : ℕ) : Event Cb → Option (StAsync Cb)
  | .accepted x req => if x = h then some req else none
  | _ => none

def ranOn (h : ℕ) : Event Cb → Option (StAsync Cb)
  | .ran x req => if x = h then some req else none
  | _ => none

def Balanced (l : Uvloop Cb) (es : List (Event Cb)) (l' : Uvloop Cb) : Prop :=
  ∀ x, Transition.Passes (acceptedOn x) (ranOn x) (l.pending x).toList es (l'.pending x).toList

theorem Balanced.of_pending (hp : ∀ x, l'.pending x = l.pending x)
    (ha : ∀ x, ∀ e ∈ es, acceptedOn x e = none) (hr : ∀ x, ∀ e ∈ es, ranOn x e = none) :
    l.Balanced es l' :=
  fun x => .of_eq (ha x) (hr x) (by rw [hp])

theorem Inv.balanced_submit (hi : l.Inv) (fill : Fill Cb) :
    l.Balanced (l.submit fill).2 (l.submit fill).1 := by
  rcases submit_cases l fill with ⟨-, he⟩ | ⟨h, l', ht, he⟩
  · rw [he]
    exact .of_pending (fun _ => rfl) (by simp [acceptedOn]) (by simp [ranOn])
  · have hn := hi.not_inUse_of_take ht
    rw [he]
    intro x
    rw [(takeAsync_cases ht).2]
    rcases eq_or_ne x h with rfl | hx
    · have hs : l.signalled x = false := by simpa using fun hs => hn (.inl hs)
      simp [Transition.Passes, List.filterMap_cons, pending, acceptedOn, ranOn, hs]
    · simp [Transition.Passes, List.filterMap_cons, pending, acceptedOn, ranOn, hx, hx.symm]

theorem Inv.balanced_turn (hi : l.Inv) {a : Turn} (ht : l.turn a = some (l', es)) :
    l.Balanced es l' := by
  cases hi.turn_cases ht with
  | fireStop h _ hs | fire h _ _ hs =>
    intro x
    rcases eq_or_ne x h with rfl | hx
    · simp [Transition.Passes, List.filterMap_cons, pending, acceptedOn, ranOn, hs]
    · simp [Transition.Passes, List.filterMap_cons, pending, acceptedOn, ranOn, hx, hx.symm]
  | tcbReturn h hp =>
    have hs : l.signalled h = false := hi.unsignalled h (by rw [hp]; rfl)
    refine .of_pending (fun x => ?_) (by simp) (by simp)
    rcases eq_or_ne x h with rfl | hx
    · simp [pending, hs]
    · simp [pending, hx]
  | recycle => exact .of_pending (fun _ => rfl) (by simp [acceptedOn]) (by simp [ranOn])
  | skip | newPass | leave | clearRunning => exact .of_pending (fun _ => rfl) (by simp) (by simp)

/-- The loop thread leaves every handle as it is, but for the `tcb` of the request that
it has just run. -/
theorem Inv.turn_async (hi : l.Inv) {a : Turn} (ht : l.turn a = some (l', es)) (x : ℕ) :
    l'.async x = l.async x ∨
      (l'.position = .ran x ∧ l'.async x = { l.async x with tcb := none }) := by
  cases hi.turn_cases ht with
  | fireStop h | tcbReturn h =>
    rcases eq_or_ne x h with rfl | hx
    · exact .inr ⟨rfl, update_self ..⟩
    · exact .inl (update_of_ne hx ..)
  | fire | recycle | skip | newPass | leave | clearRunning => exact .inl rfl

theorem tcb_of_turn {a : Turn} {cb : Cb} (ht : l.turn a = some (l', es))
    (hx : (l'.async x).tcb = some cb) : (l.async x).tcb = some cb := by
  have hclear : ∀ {h : ℕ} {st : StAsync Cb}, (update l.async h { st with tcb := none } x).tcb =
      some cb → (l.async x).tcb = some cb := by
    intro h st hu
    rcases eq_or_ne x h with rfl | hxh
    · simp at hu
    · simpa [hxh] using hu
  cases a with
  | fire h =>
    simp only [turn, Option.ite_none_right_eq_some, Option.some.injEq] at ht
    obtain ⟨-, ht⟩ := ht
    unfold callback at ht
    dsimp only at ht
    split at ht
    · obtain ⟨rfl, -⟩ := Prod.mk.inj ht
      exact hclear hx
    · split at ht <;> obtain ⟨rfl, -⟩ := Prod.mk.inj ht <;> exact hx
  | tcbReturn =>
    simp only [turn] at ht
    split at ht
    · obtain ⟨rfl, -⟩ := Prod.mk.inj (Option.some.inj ht)
      exact hclear hx
    · contradiction
  | recycle =>
    simp only [turn] at ht
    split at ht
    · unfold recycleAsync at ht
      split at ht <;> obtain ⟨rfl, -⟩ := Prod.mk.inj (Option.some.inj ht) <;> exact hx
    · contradiction
  | skip | newPass | leave | clearRunning =>
    simp only [turn, Option.ite_none_right_eq_some, Option.some.injEq, Prod.mk.injEq] at ht
    obtain ⟨-, rfl, -⟩ := ht
    exact hx
theorem takeAsync_async_of_ne (ht : l.takeAsync fill.apply = some (h, l')) (hx : x ≠ h) :
    l'.async x = l.async x := by
  rw [(takeAsync_cases ht).2]
  simp [hx]

/-! ## What a handle carries -/

/-- The callback that the next firing of a handle runs. -/
def carries (l : Uvloop Cb) (h : ℕ) : Option Cb :=
  if l.signalled h = true ∧ (l.async h).eEvent ≠ .loopStop then (l.async h).tcb else none

def Fill.callback : Fill Cb → Option Cb
  | .addReq eEventType pCallback => if eEventType ≠ .loopStop then pCallback else none
  | .stop => none

theorem Fill.of_callback {cb : Cb} (h : fill.callback = some cb) :
    ∃ eEventType, fill = .addReq eEventType (some cb) := by
  cases fill with
  | addReq e c =>
    obtain ⟨-, rfl⟩ : e ≠ .loopStop ∧ c = some cb := by simpa [callback] using h
    exact ⟨e, rfl⟩
  | stop => cases h

theorem Inv.carries_of_take (hi : l.Inv) (ht : l.takeAsync fill.apply = some (h, l')) :
    l.carries h = none ∧ l'.carries = update l.carries h fill.callback := by
  have hs : l.signalled h = false := by
    simpa using fun hs => hi.not_inUse_of_take ht (.inl hs)
  refine ⟨by simp [carries, hs], ?_⟩
  rw [(takeAsync_cases ht).2]
  ext x : 1
  rcases eq_or_ne x h with rfl | hx
  · cases fill <;> simp [carries, Fill.apply, Fill.callback]
  · simp [carries, hx]

theorem Inv.turn_carries (hi : l.Inv) {a : Turn} (ht : l.turn a = some (l', es)) (x : ℕ) :
    l'.carries x = if a = .fire x then none else l.carries x := by
  cases hi.turn_cases ht with
  | fireStop h | fire h =>
    rcases eq_or_ne x h with rfl | hx
    · simp [carries]
    · simp [carries, hx, hx.symm]
  | tcbReturn h hp =>
    have hs : l.signalled h = false := hi.unsignalled h (by rw [hp]; rfl)
    rcases eq_or_ne x h with rfl | hx
    · simp [carries, hs]
    · simp [carries, hx]
  | recycle | skip | newPass | leave | clearRunning => simp [carries]

theorem Inv.polling_of_fire (hi : l.Inv) (ht : l.turn (.fire h) = some (l', es)) :
    l.position = .polling := by
  cases hi.turn_cases ht with
  | fireStop _ hp | fire _ _ hp => exact hp

end UvWrapper.Uvloop
