import UvWrapper.Loop.Statements

/-! # The critical sections are atomic

Whoever holds `m_lockAsync` leaves the loop half changed between two statements. Nobody else can
tell: with the half changes of `AddReq` and `stop` taken back, and those of the async callback
completed, each statement is a step of the loop with its threads or no step at all. What is
proved of that system therefore holds statement by statement.
-/

namespace UvWrapper.Uvloop

open Function Transition

/-! ## Half changes -/

section Mask

variable {Cb : Type}

/-- The half changes that are seen otherwise: a handle that was popped is still free, with what
its record held before; a handle that was pushed is out of `m_mapAsync`, and its callback has
ended. -/
inductive Mask (Cb : Type)
  | plain
  | taken (h : ℕ) (old : StAsync Cb)
  | pushed (h : ℕ)
  | erased

def Mask.view : Mask Cb → Uvloop Cb → Uvloop Cb
  | .plain, l => l
  | .taken h old, l => { l with
      dAsync := h :: l.dAsync
      async := update l.async h old
      mapAsync := l.mapAsync.erase h }
  | .pushed h, l => { l with mapAsync := l.mapAsync.erase h, position := .polling }
  | .erased, l => { l with position := .polling }

/-- The handle that a thread has taken, with what its record held before. -/
def Point.taken : Point Cb → Option (ℕ × StAsync Cb)
  | .popped _ h old | .typed _ h old | .filled _ h old | .inserted _ h old => some (h, old)
  | .idle | .starting | .locking _ | .locked _ | .returning => none

/-- The half changes of a thread inside the lock. -/
def Point.mask (p : Point Cb) : Mask Cb :=
  match p.taken with
  | some (h, old) => .taken h old
  | none => .plain

def Point.inside : Point Cb → Bool
  | .idle | .starting | .locking _ => false
  | _ => true

def Point.call : Point Cb → Call Cb
  | .idle | .returning => .idle
  | .starting => .starting
  | .locking fill | .locked fill | .popped fill _ _ | .typed fill _ _ | .filled fill _ _
  | .inserted fill _ _ => .locking fill

/-- What the statements so far have written. -/
def Point.Written (l : Uvloop Cb) : Point Cb → Prop
  | .popped _ h old => l.async h = old ∧ h ∉ l.mapAsync
  | .typed fill h old => l.async h = fill.setEvent old ∧ h ∉ l.mapAsync
  | .filled fill h old => l.async h = fill.apply old ∧ h ∉ l.mapAsync
  | .inserted fill h old => l.async h = fill.apply old ∧ h ∈ l.mapAsync
  | .idle | .starting | .locking _ | .locked _ | .returning => True

def Tail.handle : Tail → Option ℕ
  | .out => none
  | .locked h | .pushed h | .erased h => some h

def Tail.mask : Tail → Mask Cb
  | .out | .locked _ => .plain
  | .pushed h => .pushed h
  | .erased _ => .erased

namespace Statements

/-- The half changes of the one who holds the lock. -/
def mask (s : Statements Cb) : Mask Cb :=
  match s.lockAsync with
  | some (.thread t) => (s.point t).mask
  | some .loop => s.tail.mask
  | none => .plain

def whole (s : Statements Cb) : Threads Cb := ⟨s.mask.view s.loop, fun t => (s.point t).call⟩

/-- The lock is held by the one who is inside it, what is seen satisfies the invariant of the
loop, and a thread finds what it has written. -/
structure Inv (s : Statements Cb) : Prop where
  whole : s.whole.Inv
  thread : ∀ t, (s.point t).inside = true ↔ s.lockAsync = some (.thread t)
  loop : s.tail ≠ .out ↔ s.lockAsync = some .loop
  position : ∀ h, s.tail.handle = some h → s.loop.position = .ran h
  written : ∀ t, (s.point t).Written s.loop

end Statements

variable {l l' : Uvloop Cb} {h : ℕ} {old : StAsync Cb} {es : List (Event Cb)} {b : Turn}
  {fill : Fill Cb} {p : Point Cb}

theorem Point.inside_of_taken (h : p.taken ≠ none) : p.inside = true := by
  cases p <;> first | rfl | exact (h rfl).elim

theorem Point.written_of_outside (h : p.taken = none) :
    p.Written l := by
  cases p with
  | popped | typed | filled | inserted => cases h
  | _ => trivial

theorem Point.mask_of_none (ht : p.taken = none) : p.mask = .plain := by
  rw [mask, ht]

theorem Point.mask_of_some (ht : p.taken = some (h, old)) : p.mask = .taken h old := by
  rw [mask, ht]

theorem Point.Written.congr (hp : p.Written l)
    (ha : ∀ h old, p.taken = some (h, old) → l'.async h = l.async h ∧ l'.mapAsync = l.mapAsync) :
    p.Written l' := by
  cases p with
  | popped fill h old | typed fill h old | filled fill h old | inserted fill h old =>
    obtain ⟨hasync, hmap⟩ := ha h old rfl
    simpa only [Point.Written, hasync, hmap] using hp
  | _ => trivial

theorem submit_of_nil (hd : l.dAsync = []) : l.submit fill = (l, [.refused .busy]) := by
  simp [submit, takeAsync, hd]

theorem submit_of_cons {rest : List ℕ} (hd : l.dAsync = h :: rest) : l.submit fill =
    ({ l with
        dAsync := rest
        async := update l.async h (fill.apply (l.async h))
        mapAsync := insert h l.mapAsync
        signalled := update l.signalled h true },
      [.accepted h (fill.apply (l.async h)), .asyncSend h]) := by
  simp [submit, takeAsync, hd]

theorem Threads.step_lock {s : Threads Cb} {t : ℕ} (hc : s.call t = .locking fill) :
    s.step (.lock t) = some (⟨(s.loop.submit fill).1, update s.call t .idle⟩,
      (s.loop.submit fill).2) := by
  simp [step, hc]

/-- `AddReq` and `stop` at once write what their statements have written. -/
theorem Mask.submit_taken (ha : l.async h = fill.apply old) (hm : h ∈ l.mapAsync) :
    ((Mask.taken h old).view l).submit fill =
      ({ l with signalled := update l.signalled h true },
        [.accepted h (l.async h), .asyncSend h]) := by
  have hd : ((Mask.taken h old).view l).dAsync = h :: l.dAsync := rfl
  rw [submit_of_cons hd]
  simp only [view, update_self, update_idem, Finset.insert_erase hm, ← ha, update_eq_self]

theorem Mask.spawn_taken (hs : l.spawn = some l') :
    ((Mask.taken h old).view l).spawn = some ((Mask.taken h old).view l') := by
  obtain ⟨hr, hp, rfl⟩ := spawn_cases hs
  exact if_pos ⟨hr, hp⟩

theorem Mask.bRunning (m : Mask Cb) : (m.view l).bRunning = l.bRunning := by
  cases m <;> rfl

theorem Mask.setRunning (m : Mask Cb) (b : Bool) :
    m.view { l with bRunning := b } = { m.view l with bRunning := b } := by
  cases m <;> rfl

theorem Mask.callback_taken {x : ℕ} (hxh : x ≠ h) :
    ((Mask.taken h old).view l).callback x =
      ((Mask.taken h old).view (l.callback x).1, (l.callback x).2) := by
  have hst : ((Mask.taken h old).view l).async x = l.async x := update_of_ne hxh ..
  unfold callback
  dsimp only
  rw [hst]
  split
  · refine Prod.ext ?_ rfl
    simp only [view]
    rw [update_comm hxh.symm]
  · split <;> rfl

theorem Mask.turn_taken (hb : b ≠ .recycle) (hs : l.signalled h = false)
    (hp : l.position.handle ≠ some h) (ht : l.turn b = some (l', es)) :
    ((Mask.taken h old).view l).turn b = some ((Mask.taken h old).view l', es) := by
  cases b with
  | fire x =>
    obtain ⟨hg, ht⟩ := Option.ite_none_right_eq_some.mp ht
    have hxh : x ≠ h := by
      rintro rfl
      exact Bool.false_ne_true (hs.symm.trans hg.2)
    have hcall : l.callback x = (l', es) := Option.some.inj ht
    refine (if_pos hg).trans ?_
    rw [callback_taken hxh, hcall]
  | tcbReturn =>
    dsimp only [turn] at ht
    split at ht
    · next x hpos =>
      have hxh : x ≠ h := by
        rintro rfl
        exact hp (by rw [hpos]; rfl)
      obtain ⟨rfl, rfl⟩ := Prod.mk.inj (Option.some.inj ht)
      simp only [turn, view, hpos, update_of_ne hxh]
      rw [update_comm hxh.symm]
    · contradiction
  | recycle => exact (hb rfl).elim
  | skip | newPass | leave | clearRunning =>
    obtain ⟨hg, ht⟩ := Option.ite_none_right_eq_some.mp ht
    obtain ⟨rfl, rfl⟩ := Prod.mk.inj (Option.some.inj ht)
    exact if_pos hg

/-- The loop thread alone does not touch a handle that is neither signalled nor being run. -/
theorem async_of_turn (hb : b ≠ .recycle) (hs : l.signalled h = false)
    (hp : l.position.handle ≠ some h) (ht : l.turn b = some (l', es)) :
    l'.async h = l.async h ∧ l'.mapAsync = l.mapAsync := by
  cases b with
  | fire x =>
    obtain ⟨hg, ht⟩ := Option.ite_none_right_eq_some.mp ht
    have hhx : h ≠ x := by
      rintro rfl
      exact Bool.false_ne_true (hs.symm.trans hg.2)
    obtain ⟨rfl, -⟩ := Prod.mk.inj ((Prod.eta _).trans (Option.some.inj ht))
    unfold callback
    dsimp only
    split
    · exact ⟨update_of_ne hhx .., rfl⟩
    · split <;> exact ⟨rfl, rfl⟩
  | tcbReturn =>
    dsimp only [turn] at ht
    split at ht
    · next x hpos =>
      have hhx : h ≠ x := by
        rintro rfl
        exact hp (by rw [hpos]; rfl)
      obtain ⟨rfl, -⟩ := Prod.mk.inj (Option.some.inj ht)
      exact ⟨update_of_ne hhx .., rfl⟩
    · contradiction
  | recycle => exact (hb rfl).elim
  | skip | newPass | leave | clearRunning =>
    obtain ⟨-, ht⟩ := Option.ite_none_right_eq_some.mp ht
    obtain ⟨rfl, -⟩ := Prod.mk.inj (Option.some.inj ht)
    exact ⟨rfl, rfl⟩

end Mask

/-! ## Statements are steps -/

namespace Statements

variable {Cb : Type} {s s' : Statements Cb} {a : Statement Cb} {es tr : List (Event Cb)}
  {t h x : ℕ} {fill : Fill Cb} {old : StAsync Cb}

theorem mask_congr (hl : s'.lockAsync = s.lockAsync) (ht : s'.tail = s.tail)
    (hp : ∀ t, s.lockAsync = some (.thread t) → s'.point t = s.point t) : s'.mask = s.mask := by
  unfold mask
  rw [hl, ht]
  split
  · next t heq => rw [hp t heq]
  all_goals rfl

theorem call_update (s : Statements Cb) (t : ℕ) (p : Point Cb) :
    (fun u => (update s.point t p u).call) = update (fun u => (s.point u).call) t p.call :=
  funext fun u => apply_update (fun _ => Point.call) s.point t p u

theorem call_same {p : Point Cb} (hc : p.call = (s.point t).call) :
    (fun u => (update s.point t p u).call) = fun u => (s.point u).call := by
  rw [call_update, hc]
  exact update_eq_self t _

theorem mask_of_thread (hl : s.lockAsync = some (.thread t)) : s.mask = (s.point t).mask := by
  unfold mask
  rw [hl]

theorem mask_of_free (hl : s.lockAsync = none) : s.mask = .plain := by
  unfold mask
  rw [hl]

theorem Inv.mask_of_out (hi : s.Inv) (ht : s.tail = .out) :
    s.mask = .plain ∨ ∃ u h old, (s.point u).taken = some (h, old) ∧ s.mask = .taken h old := by
  have hloop : s.lockAsync ≠ some .loop := fun hl => hi.loop.mpr hl ht
  cases hl : s.lockAsync with
  | none => exact .inl (mask_of_free hl)
  | some o =>
    cases o with
    | loop => exact (hloop hl).elim
    | thread u =>
      rw [mask_of_thread hl]
      cases hu : (s.point u).taken with
      | none => exact .inl (Point.mask_of_none hu)
      | some q => exact .inr ⟨u, q.1, q.2, hu, Point.mask_of_some hu⟩

theorem Inv.unused (hi : s.Inv) (hm : s.mask = .taken h old) :
    s.loop.signalled h = false ∧ s.loop.position.handle ≠ some h := by
  have huse := hi.whole.loop.inUse h
  simp only [Statements.whole, hm, Mask.view, Finset.notMem_erase, false_iff] at huse
  exact ⟨Bool.eq_false_iff.mpr fun hs => huse (.inl hs), fun hp => huse (.inr hp)⟩

theorem whole_of_thread (hl : s.lockAsync = some (.thread t)) :
    s.whole = ⟨(s.point t).mask.view s.loop, fun u => (s.point u).call⟩ := by
  rw [Statements.whole, mask_of_thread hl]

theorem whole_update (hl : s.lockAsync = some (.thread t)) (l : Uvloop Cb) (p : Point Cb) :
    whole { s with loop := l, point := update s.point t p } =
      ⟨p.mask.view l, update (fun u => (s.point u).call) t p.call⟩ := by
  rw [whole_of_thread (s := { s with loop := l, point := update s.point t p }) hl]
  simp only [update_self, call_update]

theorem whole_same {l : Uvloop Cb} {p : Point Cb} (hl : s.lockAsync = some (.thread t))
    (hc : p.call = (s.point t).call) (hv : p.mask.view l = (s.point t).mask.view s.loop) :
    whole { s with loop := l, point := update s.point t p } = s.whole := by
  rw [whole_update hl, whole_of_thread hl, hv, hc]
  exact congrArg (Threads.mk _) (update_eq_self t fun u => (s.point u).call)

theorem Inv.free_notMem (hi : s.Inv) (hm : s.mask = .plain) (hd : h ∈ s.loop.dAsync) :
    h ∉ s.loop.mapAsync := by
  have hw := hi.whole.loop.wellFormed
  rw [Statements.whole, hm] at hw
  exact hw.disjoint h hd

/-- Inside the lock a thread is not seen to do anything until it signals its handle, or is
refused. -/
theorem Inv.whole_next (hi : s.Inv) (hs : StepCases s (.next t) s' es) :
    (s'.whole = s.whole ∧ es = []) ∨ s.whole.step (.lock t) = some (s'.whole, es) := by
  have hlock : ∀ {p}, s.point t = p → p.inside = true → s.lockAsync = some (.thread t) :=
    fun hp h => (hi.thread t).mp (hp ▸ h)
  have hwr := hi.written t
  cases hs with
  | busy _ fill hp hd =>
    have hl := hlock hp rfl
    have hc : s.whole.call t = .locking fill := congrArg Point.call hp
    right
    rw [Threads.step_lock hc, whole_update hl s.loop .returning, whole_of_thread hl, hp]
    simp only [Point.mask, Point.taken, Mask.view, submit_of_nil hd, Point.call]
  | pop _ fill h rest hp hd =>
    have hl := hlock hp rfl
    refine .inl ⟨whole_same hl (by rw [hp]; rfl) ?_, rfl⟩
    have hm : s.mask = .plain := by rw [mask_of_thread hl, hp]; rfl
    have hmem := hi.free_notMem hm (hd ▸ List.mem_cons_self)
    simp only [hp, Point.mask, Point.taken, Mask.view, ← hd, update_eq_self,
      Finset.erase_eq_of_notMem hmem]
  | setEvent _ fill h old hp | setTcb _ fill h old hp =>
    have hl := hlock hp rfl
    refine .inl ⟨whole_same hl (by rw [hp]; rfl) ?_, rfl⟩
    simp only [hp, Point.mask, Point.taken, Mask.view, update_idem]
  | insert _ fill h old hp =>
    have hl := hlock hp rfl
    refine .inl ⟨whole_same hl (by rw [hp]; rfl) ?_, rfl⟩
    simp only [hp, Point.mask, Point.taken, Mask.view, Finset.erase_insert_eq_erase]
  | send _ fill h old hp =>
    have hl := hlock hp rfl
    have hc : s.whole.call t = .locking fill := congrArg Point.call hp
    rw [hp] at hwr
    obtain ⟨hasync, hmem⟩ := hwr
    right
    rw [Threads.step_lock hc, whole_update hl _ .returning, whole_of_thread hl, hp]
    have hsub := Mask.submit_taken hasync hmem
    simp only [Point.mask, Point.taken, Mask.view, Point.call] at hsub ⊢
    rw [hsub]

theorem whole_outside (hl : s.lockAsync ≠ some (.thread t)) (l : Uvloop Cb) (p : Point Cb) :
    whole { s with loop := l, point := update s.point t p } =
      ⟨s.mask.view l, update (fun u => (s.point u).call) t p.call⟩ := by
  have hm : mask { s with loop := l, point := update s.point t p } = s.mask :=
    mask_congr rfl rfl fun u hu => update_of_ne (fun e : u = t => hl (e ▸ hu)) ..
  rw [whole, hm]
  simp only [call_update]

theorem whole_of_loop (hl : s.lockAsync = some .loop) :
    s.whole = ⟨s.tail.mask.view s.loop, fun u => (s.point u).call⟩ := by
  rw [Statements.whole, mask, hl]

theorem whole_tail (hl : s.lockAsync = some .loop) (l : Uvloop Cb) (τ : Tail) :
    whole { s with loop := l, tail := τ } = ⟨τ.mask.view l, fun u => (s.point u).call⟩ :=
  whole_of_loop (s := { s with loop := l, tail := τ }) hl

theorem whole_of_free (hl : s.lockAsync = none) :
    s.whole = ⟨s.loop, fun u => (s.point u).call⟩ := by
  rw [Statements.whole, mask_of_free hl, Mask.view]

theorem Inv.whole_turn {b : Turn} {l : Uvloop Cb} (hi : s.Inv) (ht : s.tail = .out)
    (hb : b ≠ .recycle) (hs : s.loop.turn b = some (l, es)) :
    (s.mask.view s.loop).turn b = some (s.mask.view l, es) := by
  rcases hi.mask_of_out ht with hm | ⟨u, h, old, -, hm⟩
  · rw [hm]
    exact hs
  · obtain ⟨hsig, hpos⟩ := hi.unused hm
    rw [hm]
    exact Mask.turn_taken hb hsig hpos hs

theorem Inv.out_of_spawn {l : Uvloop Cb} (hi : s.Inv) (hs : s.loop.spawn = some l) :
    s.tail = .out := by
  have hpos := (spawn_cases hs).2.1
  cases ht : s.tail with
  | out => rfl
  | locked h | pushed h | erased h =>
    have := hi.position h (by rw [ht]; rfl)
    rw [hpos] at this
    contradiction

theorem Inv.whole_spawn {l : Uvloop Cb} (hi : s.Inv) (hs : s.loop.spawn = some l) :
    (s.mask.view s.loop).spawn = some (s.mask.view l) := by
  rcases hi.mask_of_out (hi.out_of_spawn hs) with hm | ⟨u, h, old, -, hm⟩
  · rw [hm]
    exact hs
  · rw [hm]
    exact Mask.spawn_taken hs

theorem Inv.mem_of_locked (hi : s.Inv) (ht : s.tail = .locked h) : h ∈ s.loop.mapAsync := by
  have hl : s.lockAsync = some .loop := hi.loop.mp (by simp [ht])
  have hpos : s.loop.position = .ran h := hi.position h (by rw [ht]; rfl)
  have hw := hi.whole.loop.inUse h
  rw [whole_of_loop hl, ht] at hw
  exact hw.mpr (.inr (by simp [Tail.mask, Mask.view, hpos, Position.handle]))

/-- Each statement is a step of the loop with its threads, or nothing is seen of it. -/
theorem Inv.step_whole (hi : s.Inv) (hg : callersBehave s a) (hs : s.step a = some (s', es)) :
    (s'.whole = s.whole ∧ es = []) ∨
      ∃ b, Uvloop.callersBehave s.whole b ∧ s.whole.step b = some (s'.whole, es) := by
  have hout : ∀ {t p}, s.point t = p → p.inside = false → s.lockAsync ≠ some (.thread t) :=
    fun {t p} hp h hl => Bool.false_ne_true (h.symm.trans (hp ▸ (hi.thread t).mpr hl))
  have hloop : ∀ {τ}, s.tail = τ → τ ≠ .out → s.lockAsync = some .loop :=
    fun ht h => hi.loop.mp (ht ▸ h)
  cases step_cases hs with
  | called t fill hp hr =>
    have hc : s.whole.call t = .idle := congrArg Point.call hp
    have hr' : s.whole.loop.bRunning = true := (Mask.bRunning s.mask).trans hr
    refine .inr ⟨.call t fill, hg, ?_⟩
    rw [whole_outside (hout hp rfl) s.loop]
    simp only [Threads.step, hc, hr', if_true]
    rfl
  | refused t fill hp hr =>
    have hc : s.whole.call t = .idle := congrArg Point.call hp
    have hr' : s.whole.loop.bRunning = false := (Mask.bRunning s.mask).trans hr
    refine .inr ⟨.call t fill, hg, ?_⟩
    simp only [Threads.step, hc, hr', Bool.false_eq_true, if_false]
  | run t loop hp hsp =>
    have hc : s.whole.call t = .idle := congrArg Point.call hp
    have hsp' : s.whole.loop.spawn = some (s.mask.view loop) := hi.whole_spawn hsp
    refine .inr ⟨.run t, trivial, ?_⟩
    rw [whole_outside (hout hp rfl)]
    simp only [Threads.step, hc, hsp', Option.map_some]
    rfl
  | setRunning t hp =>
    have hc : s.whole.call t = .starting := congrArg Point.call hp
    refine .inr ⟨.setRunning t, trivial, ?_⟩
    rw [whole_outside (hout hp rfl), Mask.setRunning]
    simp only [Threads.step, hc]
    rfl
  | acquire t fill hp hl =>
    have hc : (Point.locked fill).call = (s.point t).call := by rw [hp]; rfl
    refine .inl ⟨?_, rfl⟩
    rw [whole_of_thread (t := t) rfl, whole_of_free hl]
    simp only [update_self, call_same hc]
    rfl
  | busy | pop | setEvent | setTcb | insert | send =>
    exact (hi.whole_next (step_cases hs)).imp id fun h => ⟨.lock _, trivial, h⟩
  | release t hp =>
    have hc : (Point.idle : Point Cb).call = (s.point t).call := by rw [hp]; rfl
    have hl : s.lockAsync = some (.thread t) := (hi.thread t).mp (by rw [hp]; rfl)
    refine .inl ⟨?_, rfl⟩
    rw [whole_of_thread hl, whole_of_free rfl, hp]
    simp only [call_same hc]
    rfl
  | turn b loop _ ht hb hturn =>
    have hturn' : s.whole.loop.turn b = some (s.mask.view loop, es) := hi.whole_turn ht hb hturn
    refine .inr ⟨.turn b, trivial, ?_⟩
    simp only [Threads.step, hturn', Option.map_some]
    rfl
  | acquireTail h hpos ht hl =>
    refine .inl ⟨?_, rfl⟩
    rw [whole_of_loop rfl, whole_of_free hl]
    rfl
  | push h ht hm =>
    have hl := hloop ht (by intro h; cases h)
    have hpos : s.loop.position = .ran h := hi.position h (by rw [ht]; rfl)
    refine .inr ⟨.turn .recycle, trivial, ?_⟩
    rw [whole_tail hl _ (.pushed h), whole_of_loop hl, ht]
    simp only [Threads.step, Tail.mask, Mask.view, turn, hpos, recycleAsync, hm, if_true,
      Option.map_some]
  | derefEnd h ht hm => exact (hm (hi.mem_of_locked ht)).elim
  | erase h ht =>
    have hl := hloop ht (by intro h; cases h)
    refine .inl ⟨?_, rfl⟩
    rw [whole_tail hl, whole_of_loop hl, ht]
    rfl
  | releaseTail h ht =>
    refine .inl ⟨?_, rfl⟩
    rw [whole_of_loop (hloop ht (by intro h; cases h)), whole_of_free rfl, ht]
    rfl

/-! ## The invariant -/

theorem Inv.start (h : s.Init) : s.Inv := by
  obtain ⟨garbage, rfl⟩ := h
  refine ⟨⟨create_inv garbage, nofun⟩, fun t => ?_, ?_, nofun, fun t => trivial⟩
  · simp [Point.inside]
  · simp

theorem Inv.thread_update {p : Point Cb} (hi : s.Inv) (hp : p.inside = (s.point t).inside)
    (u : ℕ) : (update s.point t p u).inside = true ↔ s.lockAsync = some (.thread u) := by
  rw [← hi.thread u]
  rcases eq_or_ne u t with rfl | hu
  · rw [update_self, hp]
  · rw [update_of_ne hu]

theorem Inv.thread_step (hi : s.Inv) (hs : s.step a = some (s', es)) (u : ℕ) :
    (s'.point u).inside = true ↔ s'.lockAsync = some (.thread u) := by
  cases step_cases hs with
  | refused | turn | push | derefEnd | erase => exact hi.thread u
  | called t _ hp | run t _ hp | setRunning t hp | busy t _ hp | pop t _ _ _ hp
  | setEvent t _ _ _ hp | setTcb t _ _ _ hp | insert t _ _ _ hp | send t _ _ _ hp =>
    exact hi.thread_update (by rw [hp]; rfl) u
  | acquire t fill hp hl =>
    have hu := hi.thread u
    rcases eq_or_ne u t with rfl | hut
    · simp [Point.inside]
    · simpa [update_of_ne hut, hl, hut.symm] using hu
  | release t hp =>
    have hl : s.lockAsync = some (.thread t) := (hi.thread t).mp (by rw [hp]; rfl)
    have hu := hi.thread u
    rcases eq_or_ne u t with rfl | hut
    · simp [Point.inside]
    · simpa [update_of_ne hut, hl, hut.symm] using hu
  | acquireTail h hpos ht hl =>
    have hu := hi.thread u
    simpa [hl] using hu
  | releaseTail h ht =>
    have hl : s.lockAsync = some .loop := hi.loop.mp (by simp [ht])
    have hu := hi.thread u
    simpa [hl] using hu

theorem Inv.loop_step (hi : s.Inv) (hs : s.step a = some (s', es)) :
    s'.tail ≠ .out ↔ s'.lockAsync = some .loop := by
  have hl := hi.loop
  cases step_cases hs with
  | refused | turn | called | run | setRunning | busy | pop | setEvent | setTcb | insert | send =>
    exact hl
  | acquire t fill hp hfree => simpa [hfree] using hl
  | release t hp =>
    have ht : s.lockAsync = some (.thread t) := (hi.thread t).mp (by rw [hp]; rfl)
    simpa [ht] using hl
  | acquireTail | releaseTail => simp
  | push h ht | erase h ht => simpa [ht] using hl
  | derefEnd h ht hm => exact (hm (hi.mem_of_locked ht)).elim

theorem Inv.position_step (hi : s.Inv) (hs : s.step a = some (s', es))
    (hx : s'.tail.handle = some x) : s'.loop.position = .ran x := by
  cases step_cases hs with
  | refused | called | setRunning | acquire | busy | pop | setEvent | setTcb | insert | send
  | release => exact hi.position x hx
  | run t loop hp hsp =>
    rw [hi.out_of_spawn hsp] at hx
    contradiction
  | turn b loop _ ht =>
    rw [ht] at hx
    contradiction
  | acquireTail h hpos =>
    obtain rfl := Option.some.inj hx
    exact hpos
  | push h ht | erase h ht =>
    obtain rfl := Option.some.inj hx
    exact hi.position h (by rw [ht]; rfl)
  | derefEnd | releaseTail => contradiction

theorem Inv.written_next (hi : s.Inv) (hs : StepCases s (.next t) s' es) :
    (s'.point t).Written s'.loop := by
  have hw := hi.written t
  cases hs with
  | busy | send =>
    dsimp only
    rw [update_self]
    trivial
  | pop _ fill h rest hp hd =>
    have hm : s.mask = .plain := by
      rw [mask_of_thread ((hi.thread t).mp (by rw [hp]; rfl)), hp]
      rfl
    dsimp only
    rw [update_self]
    exact ⟨rfl, hi.free_notMem hm (hd ▸ List.mem_cons_self)⟩
  | setEvent _ fill h old hp =>
    rw [hp] at hw
    dsimp only
    rw [update_self]
    exact ⟨(update_self ..).trans (congrArg _ hw.1), hw.2⟩
  | setTcb _ fill h old hp =>
    rw [hp] at hw
    dsimp only
    rw [update_self]
    exact ⟨(update_self ..).trans ((congrArg _ hw.1).trans (fill.setTcb_setEvent old)), hw.2⟩
  | insert _ fill h old hp =>
    rw [hp] at hw
    dsimp only
    rw [update_self]
    exact ⟨hw.1, Finset.mem_insert_self ..⟩

theorem Inv.written_step (hi : s.Inv) (hs : s.step a = some (s', es)) (u : ℕ) :
    (s'.point u).Written s'.loop := by
  by_cases hu : s'.lockAsync = some (.thread u)
  case neg =>
    refine Point.written_of_outside (by_contra fun h => hu ?_)
    exact (hi.thread_step hs u).mp (Point.inside_of_taken h)
  have hw := hi.written u
  -- the thread `u` is inside the lock, so the others are outside
  have hne : ∀ {t p}, s.point t = p → p.inside = false →
      s.lockAsync = some (.thread u) → u ≠ t := by
    rintro t p hp h hl rfl
    exact Bool.false_ne_true (h.symm.trans (hp ▸ (hi.thread u).mpr hl))
  cases step_cases hs with
  | refused => exact hw
  | called t fill hp =>
    dsimp only
    rw [update_of_ne (hne hp rfl hu)]
    exact hw
  | run t loop hp hsp =>
    dsimp only
    rw [update_of_ne (hne hp rfl hu), (spawn_cases hsp).2.2]
    exact hw
  | setRunning t hp =>
    dsimp only
    rw [update_of_ne (hne hp rfl hu)]
    exact hw.congr fun _ _ _ => ⟨rfl, rfl⟩
  | acquire t fill =>
    obtain rfl : t = u := by simpa using hu
    dsimp only
    rw [update_self]
    trivial
  | busy t _ hp | pop t _ _ _ hp | setEvent t _ _ _ hp | setTcb t _ _ _ hp | insert t _ _ _ hp
  | send t _ _ _ hp =>
    have ht : s.lockAsync = some (.thread t) := (hi.thread t).mp (by rw [hp]; rfl)
    obtain rfl : t = u := by simpa [ht] using hu
    exact hi.written_next (step_cases hs)
  | turn b loop _ ht hb hturn =>
    refine hw.congr fun h old htaken => ?_
    have hm : s.mask = .taken h old := by
      rw [mask_of_thread (s := s) hu, Point.mask_of_some htaken]
    obtain ⟨hsig, hpos⟩ := hi.unused hm
    exact async_of_turn hb hsig hpos hturn
  | release | acquireTail | releaseTail => simp at hu
  | push h ht | derefEnd h ht | erase h ht =>
    have hl : s.lockAsync = some .loop := hi.loop.mp (by simp [ht])
    simp [hl] at hu

theorem Inv.step (hi : s.Inv) (hg : callersBehave s a) (hs : s.step a = some (s', es)) :
    s'.Inv where
  whole := by
    rcases hi.step_whole hg hs with ⟨he, -⟩ | ⟨b, hb, hstep⟩
    · exact he ▸ hi.whole
    · exact hi.whole.step hb hstep
  thread := hi.thread_step hs
  loop := hi.loop_step hs
  position _ := hi.position_step hs
  written := hi.written_step hs

theorem inv_of_reach (h : (statements Cb).Reach callersBehave tr s) : s.Inv :=
  h.stateInvariant (fun _ => .start) fun _ _ _ _ _ _ hi hg hs => hi.step hg hs

/-- What the critical sections are for: at most one is entered; the history is one of the loop
with its threads, in which the sections are steps; and where nobody is inside, so is what is
in memory. -/
structure Atomic (tr : List (Event Cb)) (s : Statements Cb) : Prop where
  exclusive : ∀ t, (s.point t).inside = true →
    s.tail = .out ∧ ∀ u, (s.point u).inside = true → u = t
  refines : (threads Cb).Reach Uvloop.callersBehave tr s.whole
  free : s.tail = .out → (∀ t, (s.point t).inside = false) → s.whole.loop = s.loop

end Statements

/-- Every history in which the threads and the loop thread are interrupted between any two
statements is a history in which they are not interrupted inside the lock. -/
theorem Statements.atomic_of_reach {Cb : Type} {s : Statements Cb} {tr : List (Event Cb)}
    (h : (statements Cb).Reach callersBehave tr s) : Atomic tr s := by
  have hi := inv_of_reach h
  constructor
  case exclusive =>
    intro t ht
    have hl := (hi.thread t).mp ht
    refine ⟨by_contra fun hne => ?_, fun u hu => ?_⟩
    · have := hi.loop.mp hne
      simp [hl] at this
    · have := (hi.thread u).mp hu
      simpa [hl, eq_comm] using this
  case refines =>
    refine h.invariant (I := fun tr s => (threads Cb).Reach Uvloop.callersBehave tr s.whole) ?_ ?_
    · rintro s ⟨garbage, rfl⟩
      exact .start ⟨garbage, rfl⟩
    · intro tr s a s' es hr ih hg hs
      rcases (inv_of_reach hr).step_whole hg hs with ⟨he, rfl⟩ | ⟨b, hb, hstep⟩
      · rwa [List.append_nil, he]
      · exact ih.step hb hstep
  case free =>
    intro ht hout
    rcases hi.mask_of_out ht with hm | ⟨u, x, old, htaken, -⟩
    · rw [Statements.whole, hm]
      rfl
    · have := hout u
      rw [Point.inside_of_taken (htaken ▸ nofun)] at this
      contradiction

/-- A handle fires before the thread that signalled it has left the lock. -/
theorem Statements.atomic_of_reach_example : ∃ tr s,
    (statements ℕ).Reach callersBehave tr s ∧ s.point 1 = .returning ∧
      s.loop.position = .running 0 ∧ Atomic tr s := by
  obtain ⟨tr, s, hr, hp⟩ := System.exists_run_of_exec (M := statements ℕ) (G := callersBehave)
    (s := ⟨Uvloop.create fun _ => .loopStop, fun _ => .idle, .out, none⟩)
    [.run 1, .setRunning 1, .call 1 (.addReq .tcpWrite (some 7)),
      .call 2 (.addReq .tcpClose (some 8)), .acquire 1, .next 1, .next 1, .next 1, .next 1,
      .next 1, .turn (.fire 0)]
    (p := fun s _ => decide (s.point 1 = .returning ∧ s.loop.position = .running 0))
    (by decide +kernel)
  have h : (statements ℕ).Reach callersBehave tr s := ⟨_, ⟨_, rfl⟩, hr⟩
  exact ⟨tr, s, h, (of_decide_eq_true hp).1, (of_decide_eq_true hp).2, atomic_of_reach h⟩

end UvWrapper.Uvloop
