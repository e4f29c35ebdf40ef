import UvWrapper.Loop.Passes

/-! # How long a request waits

The loop thread visits the handles pass by pass. Between the acceptance of a request and its
callback lie at most one visit of each other handle and the beginning of one pass, whatever
the threads submit meanwhile: a handle that comes back is visited after those that wait.
-/

namespace UvWrapper

open Function Transition

def Position.steps : Position → ℕ
  | .running _ => 2
  | .ran _ => 1
  | _ => 0

namespace Uvloop

variable {Cb : Type} {l l' : Uvloop Cb} {h x : ℕ} {es tr : List (Event Cb)} {b : Turn}
  {fill : Fill Cb} {s s' : Threads Cb} {a : Act Cb}

def ahead (l : Uvloop Cb) (h : ℕ) : ℕ :=
  if l.cursor ≤ h then h - l.cursor else asyncHandles - l.cursor + h

/-- The steps of the loop thread before it can enter the callback of `h`: three for each
handle before it, and one for a new pass. -/
def remaining (l : Uvloop Cb) (h : ℕ) : ℕ :=
  l.position.steps + 3 * l.ahead h + if l.cursor ≤ h then 0 else 1

/-- The most that a request waits: a visit of every other handle, and a new pass. -/
def longest : ℕ := 3 * (asyncHandles - 1) + 1

def Turn.inside : Turn → Bool
  | .leave | .clearRunning => false
  | .fire _ | .tcbReturn | .recycle | .skip | .newPass => true

/-- While the loop thread is in a callback its pass is just behind that handle. -/
def Passing (l : Uvloop Cb) : Prop := ∀ x, l.position.handle = some x → l.cursor = x + 1

theorem remaining_congr (hp : l'.position.steps = l.position.steps) (hc : l'.cursor = l.cursor) :
    l'.remaining h = l.remaining h := by
  simp only [remaining, ahead, hp, hc]

theorem remaining_pass {m : Uvloop Cb} (hc : l.cursor < asyncHandles) (hne : l.cursor ≠ h)
    (hm : m.cursor = l.cursor + 1) (hp : l.position = .polling) :
    m.remaining h + 3 = l.remaining h + m.position.steps := by
  have hs : l.position.steps = 0 := by rw [hp]; rfl
  simp only [remaining, ahead, hm, hs]
  split <;> split <;> omega

theorem Inv.remaining_le (hi : l.Inv) (hp : l.Passing) (hh : h < asyncHandles)
    (hne : l.position.handle ≠ some h) : l.remaining h ≤ longest := by
  have hc := hi.cursor
  have hbehind : ∀ x, l.position.handle = some x → l.cursor = x + 1 ∧ x ≠ h :=
    fun x hx => ⟨hp x hx, fun e => hne (e ▸ hx)⟩
  simp only [remaining, ahead, longest]
  cases hpos : l.position with
  | running x | ran x =>
    have := hbehind x (by rw [hpos]; rfl)
    simp only [Position.steps]
    split <;> omega
  | down | polling | left | aborted =>
    simp only [Position.steps]
    split <;> omega

theorem Inv.signalled_of_turn (hi : l.Inv) (ht : l.turn b = some (l', es))
    (hs : l'.signalled h = true) : l.signalled h = true := by
  cases hi.turn_cases ht with
  | fireStop | fire => exact (Update.of_update (by decide) hs).2
  | tcbReturn | recycle | skip | newPass | leave | clearRunning => exact hs

/-- Each step inside `uv_run` brings the callback of a waiting request nearer. -/
theorem Inv.remaining_turn (hi : l.Inv) (ht : l.turn b = some (l', es)) (hp : l.inPasses b)
    (hs : l'.signalled h = true) :
    l'.remaining h + (if b.inside then 1 else 0) ≤ l.remaining h := by
  cases hi.turn_cases ht with
  | fireStop x hpol hx =>
    obtain rfl : x = l.cursor := hp
    have hne : l.cursor ≠ h := fun e => by simp [e] at hs
    have hpass := remaining_pass (m := { l with
      signalled := update l.signalled l.cursor false
      cursor := l.cursor + 1
      stopFlag := true
      async := update l.async l.cursor { l.async l.cursor with tcb := none }
      position := .ran l.cursor }) (hi.lt_of_signalled hx) hne rfl hpol
    simp only [Position.steps] at hpass
    simp only [Turn.inside, if_true]
    omega
  | fire x cb hpol hx =>
    obtain rfl : x = l.cursor := hp
    have hne : l.cursor ≠ h := fun e => by simp [e] at hs
    have hpass := remaining_pass (m := { l with
      signalled := update l.signalled l.cursor false
      cursor := l.cursor + 1
      position := .running l.cursor }) (hi.lt_of_signalled hx) hne rfl hpol
    simp only [Position.steps] at hpass
    simp only [Turn.inside, if_true]
    omega
  | tcbReturn x hpos =>
    simp only [remaining, ahead, hpos, Position.steps, Turn.inside, if_true]
    omega
  | recycle x hpos =>
    simp only [remaining, ahead, hpos, Position.steps, Turn.inside, if_true]
    omega
  | skip hpol hc hns =>
    have hne : l.cursor ≠ h := fun e => by simp [e ▸ hns] at hs
    have hpass := remaining_pass (m := { l with cursor := l.cursor + 1 }) hc hne rfl hpol
    have hzero : l.position.steps = 0 := by rw [hpol]; rfl
    simp only [hzero] at hpass
    simp only [Turn.inside, if_true]
    omega
  | newPass hpol hc =>
    have hh : h < asyncHandles := hi.lt_of_signalled hs
    have hend : l.cursor = asyncHandles := Nat.le_antisymm hi.cursor hc
    have hbehind : ¬ asyncHandles ≤ h := Nat.not_le.mpr hh
    simp only [remaining, ahead, hend, if_neg hbehind, Nat.zero_le, if_true, Turn.inside]
    omega
  | leave hpos | clearRunning hpos =>
    simp [remaining, ahead, hpos, Position.steps, Turn.inside]

theorem Passing.turn (hp : l.Passing) (hi : l.Inv) (ht : l.turn b = some (l', es)) :
    l'.Passing := by
  cases hi.turn_cases ht with
  | fireStop x | fire x =>
    intro y hy
    obtain rfl : x = y := Option.some.inj hy
    rfl
  | tcbReturn x hpos =>
    intro y hy
    exact hp y (by rw [hpos]; exact hy)
  | skip hpol | newPass hpol =>
    intro y hy
    have hnone : l.position.handle = none := by rw [hpol]; rfl
    cases hnone.symm.trans hy
  | recycle | leave | clearRunning =>
    intro y hy
    cases hy

/-- Inside `uv_run` there is always a step to take. -/
theorem Inv.moves (hi : l.Inv) (hd : l.position ≠ .down) (hl : l.position ≠ .left) :
    ∃ b q, b.inside = true ∧ l.inPasses b ∧ l.turn b = some q := by
  cases hpos : l.position with
  | down => exact (hd hpos).elim
  | left => exact (hl hpos).elim
  | aborted => exact (hi.alive hpos).elim
  | running x => exact ⟨.tcbReturn, _, rfl, trivial, by rw [Uvloop.turn, hpos]⟩
  | ran x => exact ⟨.recycle, _, rfl, trivial, by rw [Uvloop.turn, hpos]⟩
  | polling =>
    by_cases hc : l.cursor < asyncHandles
    · cases hs : l.signalled l.cursor with
      | true => exact ⟨.fire l.cursor, _, rfl, rfl, if_pos ⟨hpos, hs⟩⟩
      | false => exact ⟨.skip, _, rfl, trivial, if_pos ⟨hpos, hc, hs⟩⟩
    · exact ⟨.newPass, _, rfl, trivial, if_pos ⟨hpos, Nat.not_lt.mp hc⟩⟩

/-! ## Whole histories -/

/-- For each handle the steps of the loop thread inside `uv_run` since its last request was
accepted. -/
def tally (_ : Threads Cb) (a : Act Cb) (es : List (Event Cb)) (g : ℕ → ℕ) : ℕ → ℕ :=
  fun h => match a with
    | .lock _ => if (es.filterMap (acceptedOn h)).isEmpty then g h else 0
    | .turn b => if b.inside then g h + 1 else g h
    | _ => g h

/-- `AddReq` is called with a callback and not for `E_LOOP_STOP`, and libuv fires the handles
in the order of its passes. -/
def inPassOrder (p : Threads Cb × (ℕ → ℕ)) : Act Cb → Prop
  | .call _ fill => fill.Callable
  | .turn b => p.1.loop.inPasses b
  | _ => True

instance : DecidableRel (inPassOrder : Threads Cb × (ℕ → ℕ) → Act Cb → Prop) := fun p a =>
  match a with
  | .call _ (.addReq _ _) => inferInstanceAs (Decidable (_ ∧ _))
  | .turn b => inferInstanceAs (Decidable (p.1.loop.inPasses b))
  | .call _ .stop | .lock _ | .run _ | .setRunning _ => .isTrue trivial

/-- What a request has waited, and what it can still have to wait. -/
structure Waits (p : Threads Cb × (ℕ → ℕ)) : Prop where
  inv : p.1.Inv
  passing : p.1.loop.Passing
  bounded : ∀ h, p.1.loop.signalled h = true → p.2 h + p.1.loop.remaining h ≤ longest

variable {p p' : Threads Cb × (ℕ → ℕ)}

theorem Waits.of_loop (hw : Waits p) (hi : p'.1.Inv)
    (hh : p'.1.loop.position.handle = p.1.loop.position.handle)
    (hst : p'.1.loop.position.steps = p.1.loop.position.steps)
    (hc : p'.1.loop.cursor = p.1.loop.cursor) (hs : p'.1.loop.signalled = p.1.loop.signalled)
    (ht : p'.2 = p.2) : Waits p' := by
  refine ⟨hi, fun x hx => ?_, fun h hx => ?_⟩
  · rw [hc]
    exact hw.passing x (hh ▸ hx)
  · rw [ht, remaining_congr hst hc]
    exact hw.bounded h (hs ▸ hx)

theorem Waits.lock {t : ℕ} (hw : Waits p) (hi : p'.1.Inv)
    (hloop : p'.1.loop = (p.1.loop.submit fill).1)
    (ht : p'.2 = tally p.1 (.lock t) (p.1.loop.submit fill).2 p.2) : Waits p' := by
  rcases submit_cases p.1.loop fill with ⟨-, he⟩ | ⟨x, l', htake, he⟩
  · rw [he] at hloop ht
    exact hw.of_loop hi (by rw [hloop]) (by rw [hloop]) (by rw [hloop]) (by rw [hloop]) ht
  · have hl' := (takeAsync_cases htake).2
    have hpos : l'.position = p.1.loop.position := by rw [hl']
    have hcur : l'.cursor = p.1.loop.cursor := by rw [hl']
    rw [he] at hloop ht
    refine ⟨hi, fun y hy => ?_, fun h hh => ?_⟩
    · rw [hloop, hcur]
      exact hw.passing y (by rwa [hloop, hpos] at hy)
    · rw [hloop, remaining_congr (by rw [hpos]) hcur, ht]
      rcases eq_or_ne h x with rfl | hx
      · have hn := hw.inv.loop.not_inUse_of_take htake
        have hle := hw.inv.loop.remaining_le hw.passing (hw.inv.loop.lt_of_take htake).1
          fun hx => hn (.inr hx)
        simpa [tally, acceptedOn] using hle
      · have hs : p.1.loop.signalled h = true := by
          rw [hloop, hl'] at hh
          simpa [hx] using hh
        simpa [tally, acceptedOn, hx.symm] using hw.bounded h hs

theorem Waits.step (hw : Waits p) (hg : inPassOrder p a)
    (hs : ((threads Cb).observed (fun _ => 0) tally).step p a = some (p', es)) : Waits p' := by
  obtain ⟨hs, ht⟩ := System.observed_step.mp hs
  have hbehave : callersBehave p.1 a := by
    cases a with
    | call => exact hg
    | _ => trivial
  have hi : p'.1.Inv := hw.inv.step hbehave hs
  obtain ⟨s', g'⟩ := p'
  cases Threads.step_cases hs with
  | called | refused | setRunning => exact hw.of_loop hi rfl rfl rfl rfl ht
  | lock t fill => exact hw.lock hi rfl ht
  | run t loop _ hsp =>
    obtain ⟨-, hpos, rfl⟩ := spawn_cases hsp
    exact hw.of_loop hi (by rw [hpos]; rfl) (by rw [hpos]; rfl) rfl rfl ht
  | turn b loop es hturn =>
    refine ⟨hi, hw.passing.turn hw.inv.loop hturn, fun h hh => ?_⟩
    have hbefore : p.1.loop.signalled h = true := hw.inv.loop.signalled_of_turn hturn hh
    have hnear := hw.inv.loop.remaining_turn hturn hg hh
    have hle := hw.bounded h hbefore
    have htally : g' h = p.2 h + if b.inside then 1 else 0 := by
      rw [show g' = _ from ht]
      cases hb : b.inside <;> simp [tally, hb]
    simp only [htally]
    omega

/-- In every history of threads that submit to a loop, a request that was accepted waits for
at most `longest` steps of the loop thread inside `uv_run`, and while `uv_run` has not
returned there is such a step to take. -/
structure Prompt (p : Threads Cb × (ℕ → ℕ)) : Prop where
  waits : ∀ h, p.1.loop.signalled h = true → p.2 h ≤ longest
  moves : p.1.loop.position ≠ .down → p.1.loop.position ≠ .left →
    ∃ b, b.inside = true ∧ inPassOrder p (.turn b) ∧ (p.1.step (.turn b)).isSome

theorem waits_of_reach
    (h : ((threads Cb).observed (fun _ => 0) tally).Reach inPassOrder tr p) : Waits p := by
  refine h.stateInvariant ?_ fun _ p a p' es _ hw hg hs => hw.step hg hs
  rintro ⟨s, g⟩ ⟨hinit, hg⟩
  refine ⟨Threads.inv_of_reach (.start hinit), ?_, ?_⟩
  · obtain ⟨garbage, rfl⟩ := hinit
    exact nofun
  · obtain ⟨garbage, rfl⟩ := hinit
    exact nofun

theorem prompt_of_reach
    (h : ((threads Cb).observed (fun _ => 0) tally).Reach inPassOrder tr p) : Prompt p := by
  have hw := waits_of_reach h
  constructor
  case waits => exact fun x hx => (Nat.le_add_right ..).trans (hw.bounded x hx)
  case moves =>
    intro hd hl
    obtain ⟨b, q, hb, hp, ht⟩ := hw.inv.loop.moves hd hl
    exact ⟨b, hb, hp, by simp [Threads.step, ht]⟩

/-- A request on the handle that a pass has just gone by, while all the others are signalled,
waits for as long as that. -/
theorem prompt_of_reach_example : ∃ tr p,
    ((threads ℕ).observed (fun _ => 0) tally).Reach inPassOrder tr p ∧
      p.1.loop.signalled 0 = true ∧ p.2 0 = longest ∧ Prompt p := by
  obtain ⟨tr, p, hr, hp⟩ := System.exists_run_of_exec
    (M := (threads ℕ).observed (fun _ => 0) tally) (G := inPassOrder)
    (s := (⟨Uvloop.create fun _ => .loopStop, fun _ => .idle⟩, fun _ => 0))
    ([.run 1, .setRunning 1, .turn .skip] ++
      (List.range 5).flatMap (fun n => [.call 1 (.addReq .tcpWrite (some n)), .lock 1]) ++
      [1, 2, 3, 4].flatMap (fun h =>
        [.turn (.fire h), .turn .tcbReturn, .turn .recycle]) ++ [.turn .newPass])
    (p := fun p _ => decide (p.1.loop.signalled 0 = true ∧ p.2 0 = longest)) (by decide +kernel)
  have h : ((threads ℕ).observed (fun _ => 0) tally).Reach inPassOrder tr p :=
    ⟨_, ⟨⟨_, rfl⟩, rfl⟩, hr⟩
  exact ⟨tr, p, h, (of_decide_eq_true hp).1, (of_decide_eq_true hp).2, prompt_of_reach h⟩

end Uvloop

end UvWrapper
