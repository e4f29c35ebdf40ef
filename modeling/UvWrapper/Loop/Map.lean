import UvWrapper.Loop.Threads

/-! # The loop under other names for its callbacks

The loop never looks at the callbacks it carries. Putting another callback in the place of
each through a function commutes with everything that the loop and its threads do, so that
a loop shared by many users looks to each of them like one that carries its own requests
and those of unnamed others.
-/

namespace UvWrapper

open Function

variable {A B : Type} {f : A → B}

def StAsync.map (f : A → B) (st : StAsync A) : StAsync B := ⟨st.eEvent, st.tcb.map f⟩

namespace Uvloop

variable {l : Uvloop A} {s : Threads A} {fill : Fill A} {h : ℕ}

def Fill.map (f : A → B) : Fill A → Fill B
  | .addReq eEventType pCallback => .addReq eEventType (pCallback.map f)
  | .stop => .stop

def Event.map (f : A → B) : Event A → Event B
  | .accepted h req => .accepted h (req.map f)
  | .refused err => .refused err
  | .asyncSend h => .asyncSend h
  | .ran h req => .ran h (req.map f)
  | .recycled h => .recycled h
  | .badFunctionCall h => .badFunctionCall h
  | .derefEnd h => .derefEnd h

def Call.map (f : A → B) : Call A → Call B
  | .idle => .idle
  | .locking fill => .locking (fill.map f)
  | .starting => .starting

def Act.map (f : A → B) : Act A → Act B
  | .call t fill => .call t (fill.map f)
  | .lock t => .lock t
  | .run t => .run t
  | .setRunning t => .setRunning t
  | .turn a => .turn a

def map (f : A → B) (l : Uvloop A) : Uvloop B := { l with async := StAsync.map f ∘ l.async }

def Threads.map (f : A → B) (s : Threads A) : Threads B where
  loop := s.loop.map f
  call := Call.map f ∘ s.call

/-! ## The handles -/

theorem Fill.map_apply (f : A → B) (fill : Fill A) (st : StAsync A) :
    (fill.map f).apply (st.map f) = (fill.apply st).map f := by
  cases fill <;> rfl

theorem Call.map_eq_idle {c : Call A} : c.map f = .idle ↔ c = .idle := by
  cases c <;> simp [map]

theorem submit_map (f : A → B) (l : Uvloop A) (fill : Fill A) :
    (l.map f).submit (fill.map f) =
      ((l.submit fill).1.map f, (l.submit fill).2.map (Event.map f)) := by
  have hd : (l.map f).dAsync = l.dAsync := rfl
  unfold submit takeAsync
  rw [hd]
  cases l.dAsync with
  | nil => rfl
  | cons h rest =>
    have ha : (l.map f).async h = (l.async h).map f := rfl
    simp only [ha, Fill.map_apply]
    refine Prod.ext ?_ ?_
    · simp only [map, comp_update]
    · simp [Event.map, update_self]

/-! ## The loop thread -/

theorem callback_map (f : A → B) (l : Uvloop A) (h : ℕ) :
    (l.map f).callback h = ((l.callback h).1.map f, (l.callback h).2.map (Event.map f)) := by
  have ha : (l.map f).async h = (l.async h).map f := rfl
  have he : ((l.async h).map f).eEvent = (l.async h).eEvent := rfl
  have ht : ((l.async h).map f).tcb = (l.async h).tcb.map f := rfl
  unfold callback
  simp only [ha, he, ht]
  cases hev : (l.async h).eEvent with
  | loopStop =>
    refine Prod.ext ?_ rfl
    simp only [map, comp_update]
    rfl
  | _ => cases (l.async h).tcb <;> rfl

theorem recycleAsync_map (f : A → B) (l : Uvloop A) (h : ℕ) :
    (l.map f).recycleAsync h =
      ((l.recycleAsync h).1.map f, (l.recycleAsync h).2.map (Event.map f)) := by
  have hm : (l.map f).mapAsync = l.mapAsync := rfl
  unfold recycleAsync
  rw [hm]
  split <;> rfl

theorem turn_map (f : A → B) (l : Uvloop A) (a : Turn) :
    (l.map f).turn a = (l.turn a).map fun p => (p.1.map f, p.2.map (Event.map f)) := by
  have hp : (l.map f).position = l.position := rfl
  cases a with
  | fire h =>
    have hs : (l.map f).signalled = l.signalled := rfl
    simp only [turn, hp, hs]
    split
    · rw [callback_map, Option.map_some]
    · rfl
  | tcbReturn =>
    simp only [turn, hp]
    split
    · simp only [map, comp_update, Option.map_some, List.map_nil]
      rfl
    · rfl
  | recycle =>
    simp only [turn, hp]
    split
    · rw [recycleAsync_map, Option.map_some]
    · rfl
  | skip =>
    have hs : (l.map f).signalled = l.signalled := rfl
    have hc : (l.map f).cursor = l.cursor := rfl
    simp only [turn, hp, hs, hc]
    split <;> rfl
  | newPass =>
    have hc : (l.map f).cursor = l.cursor := rfl
    simp only [turn, hp, hc]
    split <;> rfl
  | leave =>
    have hs : (l.map f).stopFlag = l.stopFlag := rfl
    simp only [turn, hp, hs]
    split <;> rfl
  | clearRunning =>
    simp only [turn, hp]
    split <;> rfl

theorem spawn_map (f : A → B) (l : Uvloop A) : (l.map f).spawn = l.spawn.map (map f) := by
  have hp : (l.map f).position = l.position := rfl
  have hb : (l.map f).bRunning = l.bRunning := rfl
  simp only [spawn, hp, hb]
  split <;> rfl

/-! ## The threads -/

theorem Threads.call_map (f : A → B) (s : Threads A) (t : ℕ) :
    (s.map f).call t = (s.call t).map f := rfl

/-- Every step of the image is the image of a step. -/
theorem Threads.step_map (f : A → B) (s : Threads A) (a : Act A) :
    (s.map f).step (a.map f) = (s.step a).map fun p => (p.1.map f, p.2.map (Event.map f)) := by
  cases a with
  | call t fill =>
    have hb : (s.map f).loop.bRunning = s.loop.bRunning := rfl
    simp only [step, Act.map, call_map, hb]
    cases s.call t with
    | idle =>
      simp only [Call.map]
      split
      · simp only [map, comp_update, Option.map_some, List.map_nil]
        rfl
      · rfl
    | locking | starting => rfl
  | lock t =>
    simp only [step, Act.map, call_map]
    cases s.call t with
    | locking fill =>
      have hl : (s.map f).loop.submit (fill.map f) = _ := submit_map f s.loop fill
      simp only [Call.map, hl]
      simp only [map, comp_update, Option.map_some]
      rfl
    | idle | starting => rfl
  | run t =>
    have hl : (s.map f).loop.spawn = _ := spawn_map f s.loop
    simp only [step, Act.map, call_map]
    cases s.call t with
    | idle =>
      simp only [Call.map, hl]
      cases s.loop.spawn with
      | none => rfl
      | some l =>
        simp only [map, comp_update, Option.map_some, List.map_nil]
        rfl
    | locking | starting => rfl
  | setRunning t =>
    simp only [step, Act.map, call_map]
    cases s.call t with
    | starting =>
      simp only [Call.map, map, comp_update, Option.map_some, List.map_nil]
      rfl
    | idle | locking => rfl
  | turn b =>
    have hl : (s.map f).loop.turn b = _ := turn_map f s.loop b
    simp only [step, Act.map, hl]
    cases s.loop.turn b <;> rfl

/-! ## A call that nobody interrupts -/

/-- `AddReq` from its test of `m_bRunning` to its return, with no other step in between. -/
def Threads.atOnce (s : Threads A) (fill : Fill A) : Threads A × List (Event A) :=
  if s.loop.bRunning then ({ s with loop := (s.loop.submit fill).1 }, (s.loop.submit fill).2)
  else (s, [.refused .stop])

theorem Threads.atOnce_map (f : A → B) (s : Threads A) (fill : Fill A) :
    (s.map f).atOnce (fill.map f) =
      ((s.atOnce fill).1.map f, (s.atOnce fill).2.map (Event.map f)) := by
  have hb : (s.map f).loop.bRunning = s.loop.bRunning := rfl
  have hl : (s.map f).loop.submit (fill.map f) = _ := submit_map f s.loop fill
  unfold atOnce
  rw [hb]
  split
  · rw [hl]
    rfl
  · rfl

theorem Threads.steps_atOnce {t : ℕ} (hc : s.call t = .idle) (fill : Fill A) :
    (s.loop.bRunning = false ∧ s.step (.call t fill) = some (s.atOnce fill)) ∨
      s.loop.bRunning = true ∧
        s.step (.call t fill) = some ({ s with call := update s.call t (.locking fill) }, []) ∧
        Threads.step { s with call := update s.call t (.locking fill) } (.lock t) =
          some (s.atOnce fill) := by
  cases hb : s.loop.bRunning with
  | false =>
    left
    simp [step, atOnce, hc, hb]
  | true =>
    right
    have hcall : update (update s.call t (.locking fill)) t .idle = s.call := by
      rw [update_idem, ← hc, update_eq_self]
    simp [step, atOnce, hc, hb, hcall]

end Uvloop

end UvWrapper
