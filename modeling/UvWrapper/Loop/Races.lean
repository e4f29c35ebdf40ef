import UvWrapper.Loop.Atomic

/-! # What the loop shares

Each statement with the members it reads and writes. A member other than `m_bRunning` is
touched only by the one who owns it: the deque and the map by the one who holds `m_lockAsync`, a
record by the thread that took its handle until it is signalled, and by the loop thread until
the handle is pushed back. `m_bRunning` is read and written without the lock.
-/

namespace UvWrapper.Uvloop

open Function Transition

/-- The members that several threads touch; a record stands for its `eEvent` and `tcb`. -/
inductive Loc
  | bRunning
  | dAsync
  | mapAsync
  | async (h : ℕ)
  deriving DecidableEq

structure Access where
  loc : Loc
  writes : Bool
  deriving DecidableEq

/-- The member is the same in both loops. -/
def Loc.Same {Cb : Type} (l l' : Uvloop Cb) : Loc → Prop
  | .bRunning => l'.bRunning = l.bRunning
  | .dAsync => l'.dAsync = l.dAsync
  | .mapAsync => l'.mapAsync = l.mapAsync
  | .async h => l'.async h = l.async h

def Statement.party {Cb : Type} : Statement Cb → Party
  | .call t _ | .run t | .setRunning t | .acquire t | .next t | .release t => .thread t
  | .turn _ | .acquireTail | .nextTail | .releaseTail => .loop

def Point.accesses {Cb : Type} : Point Cb → List Access
  | .locked _ => [⟨.dAsync, true⟩]
  | .popped _ h _ | .typed (.addReq _ _) h _ => [⟨.async h, true⟩]
  | .filled _ _ _ => [⟨.mapAsync, true⟩]
  | .typed .stop _ _ | .inserted _ _ _ | .idle | .starting | .locking _ | .returning => []

def Tail.accesses : Tail → List Access
  | .locked _ => [⟨.mapAsync, false⟩, ⟨.dAsync, true⟩]
  | .pushed _ => [⟨.mapAsync, true⟩]
  | .out | .erased _ => []

/-- The statements of a thread until it has left the lock. -/
def Point.left {Cb : Type} : Point Cb → ℕ
  | .idle | .starting | .locking _ => 0
  | .locked _ => 6
  | .popped _ _ _ => 5
  | .typed _ _ _ => 4
  | .filled _ _ _ => 3
  | .inserted _ _ _ => 2
  | .returning => 1

def Tail.left : Tail → ℕ
  | .out => 0
  | .locked _ => 3
  | .pushed _ => 2
  | .erased _ => 1

namespace Statements

variable {Cb : Type} {s s' : Statements Cb} {a b : Statement Cb} {es tr : List (Event Cb)}
  {t : ℕ} {p q : Party} {c : Loc} {x : Access}

def accesses (s : Statements Cb) : Statement Cb → List Access
  | .call _ _ | .run _ => [⟨.bRunning, false⟩]
  | .setRunning _ | .turn .clearRunning => [⟨.bRunning, true⟩]
  | .next t => (s.point t).accesses
  | .turn (.fire h) => [⟨.async h, true⟩]
  | .turn .tcbReturn =>
    match s.loop.position with
    | .running h => [⟨.async h, true⟩]
    | _ => []
  | .nextTail => s.tail.accesses
  | .acquire _ | .release _ | .turn _ | .acquireTail | .releaseTail => []

/-- Who may touch a member; anybody may touch `m_bRunning`. -/
def Owns (s : Statements Cb) : Party → Loc → Prop
  | _, .bRunning => True
  | p, .dAsync | p, .mapAsync => s.lockAsync = some p
  | .thread t, .async h => ∃ old, (s.point t).taken = some (h, old)
  | .loop, .async h => s.loop.signalled h = true ∨ s.loop.position.handle = some h

/-- Two threads are about to touch one member, and one of them to write it. -/
structure Race (s : Statements Cb) (a b : Statement Cb) (c : Loc) : Prop where
  fst : (s.step a).isSome
  snd : (s.step b).isSome
  ne : a.party ≠ b.party
  conflict : ∃ x ∈ s.accesses a, ∃ y ∈ s.accesses b,
    x.loc = c ∧ y.loc = c ∧ (x.writes = true ∨ y.writes = true)

theorem Inv.lock_of_taken {h : ℕ} {old : StAsync Cb} (hi : s.Inv)
    (ht : (s.point t).taken = some (h, old)) : s.lockAsync = some (.thread t) :=
  (hi.thread t).mp (Point.inside_of_taken (ht ▸ nofun))

theorem Inv.not_loop_of_taken {h : ℕ} {old : StAsync Cb} (hi : s.Inv)
    (ht : (s.point t).taken = some (h, old)) : ¬ s.Owns .loop (.async h) := by
  have hm : s.mask = .taken h old := by
    rw [mask_of_thread (hi.lock_of_taken ht), Point.mask_of_some ht]
  obtain ⟨hsig, hpos⟩ := hi.unused hm
  rintro (h | h)
  · exact Bool.false_ne_true (hsig.symm.trans h)
  · exact hpos h

theorem Inv.owns_unique (hi : s.Inv) (hc : c ≠ .bRunning) (hp : s.Owns p c) (hq : s.Owns q c) :
    p = q := by
  cases c with
  | bRunning => exact (hc rfl).elim
  | dAsync | mapAsync => exact Option.some.inj (hp.symm.trans hq)
  | async h =>
    cases p with
    | thread t =>
      obtain ⟨old, ht⟩ := hp
      cases q with
      | thread u =>
        obtain ⟨old', hu⟩ := hq
        exact Option.some.inj ((hi.lock_of_taken ht).symm.trans (hi.lock_of_taken hu))
      | loop => exact (hi.not_loop_of_taken ht hq).elim
    | loop =>
      cases q with
      | thread u =>
        obtain ⟨old', hu⟩ := hq
        exact (hi.not_loop_of_taken hu hp).elim
      | loop => rfl

theorem Inv.owns_next (hi : s.Inv) (hs : StepCases s (.next t) s' es)
    (hx : x ∈ (s.point t).accesses) : s.Owns (.thread t) x.loc := by
  have hl : ∀ {p}, s.point t = p → p.inside = true → s.lockAsync = some (.thread t) :=
    fun hp h => (hi.thread t).mp (hp ▸ h)
  cases hs with
  | busy _ fill hp | pop _ fill _ _ hp =>
    rw [hp] at hx
    obtain rfl := List.mem_singleton.mp hx
    exact hl hp rfl
  | setEvent _ fill h old hp =>
    rw [hp] at hx
    obtain rfl := List.mem_singleton.mp hx
    exact ⟨old, by rw [hp]; rfl⟩
  | setTcb _ fill h old hp =>
    rw [hp] at hx
    cases fill with
    | addReq =>
      obtain rfl := List.mem_singleton.mp hx
      exact ⟨old, by rw [hp]; rfl⟩
    | stop => contradiction
  | insert _ fill h old hp =>
    rw [hp] at hx
    obtain rfl := List.mem_singleton.mp hx
    exact hl hp rfl
  | send _ fill h old hp =>
    rw [hp] at hx
    contradiction

theorem owns_turn {b : Turn} {l : Uvloop Cb} (hs : s.loop.turn b = some (l, es))
    (hx : x ∈ s.accesses (.turn b)) : s.Owns .loop x.loc := by
  cases b with
  | fire h =>
    obtain rfl := List.mem_singleton.mp hx
    exact .inl (Option.ite_none_right_eq_some.mp hs).1.2
  | tcbReturn =>
    cases hpos : s.loop.position with
    | running h =>
      rw [accesses, hpos] at hx
      obtain rfl := List.mem_singleton.mp hx
      exact .inr (by rw [hpos]; rfl)
    | _ => simp [turn, hpos] at hs
  | clearRunning =>
    obtain rfl := List.mem_singleton.mp hx
    trivial
  | recycle | skip | newPass | leave => contradiction

theorem Inv.owns_of_access (hi : s.Inv) (hs : s.step a = some (s', es)) (hx : x ∈ s.accesses a) :
    s.Owns a.party x.loc := by
  cases step_cases hs with
  | called | refused | run | setRunning =>
    obtain rfl := List.mem_singleton.mp hx
    trivial
  | busy | pop | setEvent | setTcb | insert | send => exact hi.owns_next (step_cases hs) hx
  | acquire | release | acquireTail | releaseTail => contradiction
  | turn b loop _ ht hb hturn => exact owns_turn hturn hx
  | push h ht hm | erase h ht =>
    have hl : s.lockAsync = some .loop := hi.loop.mp (by simp [ht])
    rw [accesses, ht] at hx
    simp only [Tail.accesses, List.mem_cons, List.not_mem_nil, or_false] at hx
    rcases hx with rfl | rfl <;> exact hl
  | derefEnd h ht hm => exact (hm (hi.mem_of_locked ht)).elim

theorem frame_callback {l : Uvloop Cb} {h : ℕ} (hc : c ≠ .async h) :
    c.Same l (l.callback h).1 := by
  unfold callback
  dsimp only
  split
  · cases c with
    | async x => exact update_of_ne (fun e => hc (congrArg Loc.async e)) ..
    | _ => rfl
  · split <;> cases c <;> rfl

theorem frame_turn {β : Turn} {l : Uvloop Cb} (hb : β ≠ .recycle)
    (hs : s.loop.turn β = some (l, es))
    (hc : ∀ x ∈ s.accesses (.turn β), x.writes = true → x.loc ≠ c) : c.Same s.loop l := by
  cases β with
  | fire h =>
    obtain rfl := congrArg Prod.fst (Option.some.inj (Option.ite_none_right_eq_some.mp hs).2)
    exact frame_callback (hc _ (List.mem_singleton_self _) rfl).symm
  | tcbReturn =>
    cases hpos : s.loop.position with
    | running h =>
      have hne := hc ⟨.async h, true⟩ (by simp [accesses, hpos]) rfl
      simp only [turn, hpos, Option.some.injEq, Prod.mk.injEq] at hs
      obtain ⟨rfl, -⟩ := hs
      cases c with
      | async x => exact update_of_ne (fun e => hne (congrArg Loc.async e.symm)) ..
      | _ => rfl
    | _ => simp [turn, hpos] at hs
  | recycle => exact (hb rfl).elim
  | clearRunning =>
    have hne := hc ⟨.bRunning, true⟩ (List.mem_singleton_self _) rfl
    obtain rfl := congrArg Prod.fst (Option.some.inj (Option.ite_none_right_eq_some.mp hs).2)
    cases c with
    | bRunning => exact (hne rfl).elim
    | _ => rfl
  | skip | newPass | leave =>
    obtain rfl := congrArg Prod.fst (Option.some.inj (Option.ite_none_right_eq_some.mp hs).2)
    cases c <;> rfl

theorem frame_next (hs : StepCases s (.next t) s' es)
    (hc : ∀ x ∈ (s.point t).accesses, x.writes = true → x.loc ≠ c) : c.Same s.loop s'.loop := by
  cases hs with
  | busy | send => cases c <;> rfl
  | pop _ fill h rest hp =>
    have hne := hc ⟨.dAsync, true⟩ (by simp [hp, Point.accesses]) rfl
    cases c with
    | dAsync => exact (hne rfl).elim
    | _ => rfl
  | setEvent _ fill h old hp =>
    have hne := hc ⟨.async h, true⟩ (by simp [hp, Point.accesses]) rfl
    cases c with
    | async x => exact update_of_ne (fun e => hne (congrArg Loc.async e.symm)) ..
    | _ => rfl
  | setTcb _ fill h old hp =>
    cases fill with
    | addReq e cb =>
      have hne := hc ⟨.async h, true⟩ (by simp [hp, Point.accesses]) rfl
      cases c with
      | async x => exact update_of_ne (fun e => hne (congrArg Loc.async e.symm)) ..
      | _ => rfl
    | stop =>
      cases c with
      | async x => exact congrFun (update_eq_self ..) x
      | _ => rfl
  | insert _ fill h old hp =>
    have hne := hc ⟨.mapAsync, true⟩ (by simp [hp, Point.accesses]) rfl
    cases c with
    | mapAsync => exact (hne rfl).elim
    | _ => rfl

theorem step_frame (hs : s.step a = some (s', es))
    (hc : ∀ x ∈ s.accesses a, x.writes = true → x.loc ≠ c) : c.Same s.loop s'.loop := by
  cases step_cases hs with
  | called | refused | acquire | release | acquireTail | releaseTail | derefEnd => cases c <;> rfl
  | run t loop _ hsp =>
    obtain ⟨-, -, rfl⟩ := spawn_cases hsp
    cases c <;> rfl
  | setRunning =>
    have hne := hc ⟨.bRunning, true⟩ (List.mem_singleton_self _) rfl
    cases c with
    | bRunning => exact (hne rfl).elim
    | _ => rfl
  | busy | pop | setEvent | setTcb | insert | send => exact frame_next (step_cases hs) hc
  | turn b loop _ ht hb hturn => exact frame_turn hb hturn hc
  | push h ht =>
    have hne := hc ⟨.dAsync, true⟩ (by simp [accesses, ht, Tail.accesses]) rfl
    cases c with
    | dAsync => exact (hne rfl).elim
    | _ => rfl
  | erase h ht =>
    have hne := hc ⟨.mapAsync, true⟩ (by simp [accesses, ht, Tail.accesses]) rfl
    cases c with
    | mapAsync => exact (hne rfl).elim
    | _ => rfl

def left (s : Statements Cb) : ℕ :=
  match s.lockAsync with
  | some (.thread t) => (s.point t).left
  | some .loop => s.tail.left
  | none => 0

theorem Inv.left_pos (hi : s.Inv) (hl : s.lockAsync = some p) : 0 < s.left ∧ s.left ≤ 6 := by
  rw [left, hl]
  cases p with
  | thread t =>
    have := (hi.thread t).mpr hl
    dsimp only
    cases hp : s.point t with
    | idle | starting | locking => simp [hp, Point.inside] at this
    | _ => simp [Point.left]
  | loop =>
    dsimp only
    cases ht : s.tail with
    | out => exact (hi.loop.mpr hl ht).elim
    | _ => simp [Tail.left]

theorem Inv.enabled (hi : s.Inv) (hl : s.lockAsync = some p) :
    ∃ a, a.party = p ∧ (s.step a).isSome := by
  cases p with
  | thread t =>
    have := (hi.thread t).mpr hl
    cases hp : s.point t with
    | idle | starting | locking => simp [hp, Point.inside] at this
    | returning => exact ⟨.release t, rfl, by simp [Statements.step, hp]⟩
    | locked => exact ⟨.next t, rfl, by
      simp only [Statements.step, next, hp]
      split <;> rfl⟩
    | popped | typed | filled | inserted =>
      exact ⟨.next t, rfl, by simp [Statements.step, next, hp]⟩
  | loop =>
    have := hi.loop.mpr hl
    cases ht : s.tail with
    | out => exact (this ht).elim
    | locked h =>
      exact ⟨.nextTail, rfl, by simp [Statements.step, nextTail, ht, hi.mem_of_locked ht]⟩
    | pushed h => exact ⟨.nextTail, rfl, by simp [Statements.step, nextTail, ht]⟩
    | erased h => exact ⟨.releaseTail, rfl, by simp [Statements.step, ht]⟩

theorem Inv.left_own (hi : s.Inv) (hl : s.lockAsync = some p) (hs : s.step a = some (s', es))
    (ha : a.party = p) : s'.left < s.left := by
  subst ha
  cases step_cases hs with
  | called t fill hp | refused t fill hp | run t loop hp | setRunning t hp | acquire t fill hp =>
    have := (hi.thread t).mpr hl
    simp [hp, Point.inside] at this
  | busy t _ hp | pop t _ _ _ hp | setEvent t _ _ _ hp | setTcb t _ _ _ hp | insert t _ _ _ hp
  | send t _ _ _ hp | release t hp =>
    simp [left, hl, hp, Point.left, Statement.party]
  | turn b loop _ ht | acquireTail h hpos ht => exact (hi.loop.mpr hl ht).elim
  | push h ht | erase h ht | releaseTail h ht =>
    simp [left, hl, ht, Tail.left, Statement.party]
  | derefEnd h ht hm => exact (hm (hi.mem_of_locked ht)).elim

theorem left_congr (hl : s'.lockAsync = s.lockAsync) (ht : s'.tail = s.tail)
    (hp : ∀ t, s.lockAsync = some (.thread t) → s'.point t = s.point t) : s'.left = s.left := by
  unfold left
  rw [hl, ht]
  split
  · next t heq => rw [hp t heq]
  all_goals rfl

theorem Inv.left_other (hi : s.Inv) (hl : s.lockAsync = some p) (hs : s.step a = some (s', es))
    (ha : a.party ≠ p) : s'.lockAsync = some p ∧ s'.left = s.left := by
  have hne : ∀ {t u}, a.party = .thread t → s.lockAsync = some (.thread u) → u ≠ t := by
    rintro t u h hu rfl
    exact ha (h.trans (Option.some.inj (hu.symm.trans hl)))
  cases step_cases hs with
  | refused | turn => exact ⟨hl, rfl⟩
  | called t | run t | setRunning t =>
    exact ⟨hl, left_congr rfl rfl fun u hu => update_of_ne (hne rfl hu) ..⟩
  | acquire _ _ _ hfree | acquireTail _ _ _ hfree => simp [hfree] at hl
  | busy t _ hp | pop t _ _ _ hp | setEvent t _ _ _ hp | setTcb t _ _ _ hp | insert t _ _ _ hp
  | send t _ _ _ hp | release t hp =>
    exact (hne rfl ((hi.thread t).mp (by rw [hp]; rfl)) rfl).elim
  | push h ht | derefEnd h ht | erase h ht | releaseTail h ht =>
    have := hi.loop.mp (by simp [ht])
    exact (ha (Option.some.inj (this.symm.trans hl))).elim

/-- The statements change only what they are said to write, and the only races are on
`m_bRunning`. -/
structure RaceFree (s : Statements Cb) : Prop where
  frame : ∀ a s' es, s.step a = some (s', es) → ∀ c,
    (∀ x ∈ s.accesses a, x.writes = true → x.loc ≠ c) → c.Same s.loop s'.loop
  races : ∀ a b c, s.Race a b c → c = .bRunning

/-- The one who holds the lock leaves it after at most six statements of its own: it has a
next one in every state, whatever the others do in between. -/
structure Leaves (s : Statements Cb) (p : Party) : Prop where
  bounded : 0 < s.left ∧ s.left ≤ 6
  enabled : ∃ a, a.party = p ∧ (s.step a).isSome
  own : ∀ a s' es, s.step a = some (s', es) → a.party = p → s'.left < s.left
  other : ∀ a s' es, s.step a = some (s', es) → a.party ≠ p →
    s'.lockAsync = some p ∧ s'.left = s.left

/-- The deque, the map and the records of a loop are touched by one thread at a time. -/
theorem raceFree_of_reach (h : (statements Cb).Reach callersBehave tr s) : RaceFree s := by
  have hi := inv_of_reach h
  refine ⟨fun a s' es hs c => step_frame hs, ?_⟩
  rintro a b c ⟨ha, hb, hne, x, hx, y, hy, hxc, hyc, -⟩
  obtain ⟨⟨sa, ea⟩, ha⟩ := Option.isSome_iff_exists.mp ha
  obtain ⟨⟨sb, eb⟩, hb⟩ := Option.isSome_iff_exists.mp hb
  by_contra hc
  exact hne (hi.owns_unique hc (hxc ▸ hi.owns_of_access ha hx) (hyc ▸ hi.owns_of_access hb hy))

/-- `run` sets `m_bRunning` while another thread tests it. -/
theorem raceFree_of_reach_example : ∃ tr s, (statements ℕ).Reach callersBehave tr s ∧
    s.Race (.setRunning 1) (.call 2 .stop) .bRunning ∧ RaceFree s := by
  obtain ⟨tr, s, hr, hp⟩ := System.exists_run_of_exec (M := statements ℕ) (G := callersBehave)
    (s := ⟨Uvloop.create fun _ => .loopStop, fun _ => .idle, .out, none⟩) [.run 1]
    (p := fun s _ => (s.step (.setRunning 1)).isSome && (s.step (.call 2 .stop)).isSome)
    (by decide +kernel)
  have h : (statements ℕ).Reach callersBehave tr s := ⟨_, ⟨_, rfl⟩, hr⟩
  obtain ⟨h₁, h₂⟩ := Bool.and_eq_true_iff.mp hp
  refine ⟨tr, s, h, ⟨h₁, h₂, by decide, ?_⟩, raceFree_of_reach h⟩
  exact ⟨⟨.bRunning, true⟩, by simp [accesses], ⟨.bRunning, false⟩, by simp [accesses], rfl, rfl,
    .inl rfl⟩

/-- Nobody stays inside the lock. -/
theorem leaves_of_reach (h : (statements Cb).Reach callersBehave tr s)
    (hl : s.lockAsync = some p) : Leaves s p := by
  have hi := inv_of_reach h
  exact ⟨hi.left_pos hl, hi.enabled hl, fun a s' es => hi.left_own hl,
    fun a s' es => hi.left_other hl⟩

/-- A thread that has signalled its handle is still inside, and the callback already runs. -/
theorem leaves_of_reach_example : ∃ tr s, (statements ℕ).Reach callersBehave tr s ∧
    s.loop.position = .ran 0 ∧ Leaves s (.thread 1) := by
  obtain ⟨tr, s, hr, hp⟩ := System.exists_run_of_exec (M := statements ℕ) (G := callersBehave)
    (s := ⟨Uvloop.create fun _ => .loopStop, fun _ => .idle, .out, none⟩)
    [.run 1, .setRunning 1, .call 1 (.addReq .tcpWrite (some 7)), .acquire 1, .next 1, .next 1,
      .next 1, .next 1, .next 1, .turn (.fire 0), .turn .tcbReturn]
    (p := fun s _ => decide (s.loop.position = .ran 0 ∧ s.lockAsync = some (.thread 1)))
    (by decide +kernel)
  have h : (statements ℕ).Reach callersBehave tr s := ⟨_, ⟨_, rfl⟩, hr⟩
  exact ⟨tr, s, h, (of_decide_eq_true hp).1, leaves_of_reach h (of_decide_eq_true hp).2⟩

end Statements

end UvWrapper.Uvloop
