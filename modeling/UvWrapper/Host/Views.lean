import UvWrapper.Host.Steps
import UvWrapper.Connect.Server
import UvWrapper.Lib.Simulation

/-! # Each connection on a shared loop is a connection

To one of the connections that share a loop the others are users of the loop like any other.
A step of its own is a step of the connection, and what the others do is what the model of a
single connection lets its environment do. Whatever holds in all runs of a single connection
holds of each of them, however many there are.
-/

namespace UvWrapper.Host

open Function Transition Uvloop

/-! ## Requests and places -/

section Places

variable {i j : ℕ} {task : Task}

theorem Task.seen_eType (i : ℕ) (task : Task) : (task.seen i).eType = task.eType := by
  cases task with
  | conn j req =>
    by_cases hj : j = i <;> simp [seen, eType, hj, Req.eType]
  | other => rfl

theorem Place.seen_of (c : Writer) : (Place.of i c).seen i = c := by
  unfold Place.of
  split
  · next hc => rw [hc]; rfl
  · exact if_pos rfl

theorem Place.seen_of_ne (hij : j ≠ i) (c : Writer) : (Place.of j c).seen i = foreign c := by
  unfold Place.of
  split
  · next hc => rw [hc]; rfl
  · exact if_neg hij

theorem Place.seen_task {p : Place} (h : p.task = some task) :
    p.seen i = .requesting (task.seen i) := by
  cases p with
  | idle => cases h
  | conn j c =>
    cases c with
    | requesting req =>
      obtain rfl : Task.conn j req = task := Option.some.inj h
      by_cases hj : j = i <;> simp [seen, Task.seen, foreign, hj]
    | idle | checked | obtained => cases h
  | other e id =>
    obtain rfl : Task.other e id = task := Option.some.inj h
    rfl

/-- A place in front of `AddReq`, or between the tests of `wirteData` and the record, shows
in nobody's view but that of its own connection. -/
theorem Place.seen_eq_idle {p : Place} (hij : j ≠ i) (hf : foreign (p.seen j) = .idle)
    (hp : p.seen j = .idle → p = .idle) : p.seen i = .idle := by
  cases p with
  | idle => rfl
  | conn k c =>
    by_cases hk : k = j
    · have hki : k ≠ i := hk ▸ hij
      simp only [seen, if_pos hk] at hf
      simp only [seen, if_neg hki, hf]
    · simp only [seen, if_neg hk] at hf hp
      cases c with
      | requesting req => cases hf
      | idle | checked | obtained => cases hp rfl
  | other => cases hf

end Places

variable {w i j h t : ℕ} {s s' : Host} {a : Act} {es : List Event} {u u' : Uvconnect}
  {b : Uvconnect.Act} {fs : List Uvconnect.Event} {th : Threads Task}
  {les : List (Uvloop.Event Task)} {task : Task}
  {G : Uvconnect → Uvconnect.Act → Prop}

/-- The events of a connection without what `AddReq` returns to the other users. -/
def shown : Uvconnect.Event → Option Uvconnect.Event
  | .returned t req err => if req.own then some (.returned t req err) else none
  | e => some e

def Event.seen (i : ℕ) : Event → Option Uvconnect.Event
  | .loop e => some (.loop (e.map (Task.seen i)))
  | .conn j e => if j = i then shown e else none
  | .returned t task err => shown (.returned t (task.seen i) err)

/-- The steps that are admitted to the connection `i`, which are all steps of the others. -/
def admits (G : Uvconnect → Uvconnect.Act → Prop) (i : ℕ) (s : Host) : Act → Prop
  | .conn j b => j = i → G (s.view i) b
  | .closeCb j h => j = i → G (s.view i) (.closeCb h)
  | .run t => G (s.view i) (.run t)
  | .setRunning t => G (s.view i) (.setRunning t)
  | .stop t => G (s.view i) (.stop t)
  | .request t eEventType id => G (s.view i) (.request t (.other eEventType id))
  | .turn a => G (s.view i) (.turn a)
  | .perform err => G (s.view i) (.perform err)
  | .addReq _ | .lock _ => True

instance [∀ u, DecidablePred (G u)] (s : Host) : DecidablePred (admits G i s) := fun a =>
  match a with
  | .conn j b => inferInstanceAs (Decidable (j = i → G (s.view i) b))
  | .closeCb j h => inferInstanceAs (Decidable (j = i → G (s.view i) (.closeCb h)))
  | .run t => inferInstanceAs (Decidable (G (s.view i) (.run t)))
  | .setRunning t => inferInstanceAs (Decidable (G (s.view i) (.setRunning t)))
  | .stop t => inferInstanceAs (Decidable (G (s.view i) (.stop t)))
  | .request t eEventType id =>
    inferInstanceAs (Decidable (G (s.view i) (.request t (.other eEventType id))))
  | .turn a => inferInstanceAs (Decidable (G (s.view i) (.turn a)))
  | .perform err => inferInstanceAs (Decidable (G (s.view i) (.perform err)))
  | .addReq _ | .lock _ => .isTrue trivial

/-- `G` admits every request of another user but an `E_LOOP_STOP`, and every `AddReq`. -/
structure Lenient (G : Uvconnect → Uvconnect.Act → Prop) : Prop where
  request : ∀ u t e id, e ≠ .loopStop → G u (.request t (.other e id))
  addReq : ∀ u t, G u (.addReq t)
  lock : ∀ u t, G u (.lock t)

/-! ## What a connection sees of a state -/

theorem view_crashed (hc : s.crashed = none) : (s.view i).crashed = false := by
  simp [view, hc]

theorem view_idle (hi : s.Idle t) : (s.view i).Idle t := by
  constructor
  · simp [view, hi.1, Place.seen]
  · simp [view, Threads.map, hi.2, Call.map]

/-! ## The loop and its threads -/

theorem seen_loop (les : List (Uvloop.Event Task)) :
    (les.map Event.loop).filterMap (Event.seen i) =
      ((les.map (Uvloop.Event.map (Task.seen i))).map Uvconnect.Event.loop).filterMap shown := by
  simp only [List.map_map, List.filterMap_map]
  rfl

theorem seen_conn (fs : List Uvconnect.Event) :
    (fs.map (Event.conn i)).filterMap (Event.seen i) = fs.filterMap shown := by
  rw [List.filterMap_map]
  congr 1
  ext e : 1
  exact if_pos rfl

theorem seen_conn_of_ne (hij : j ≠ i) (fs : List Uvconnect.Event) :
    (fs.map (Event.conn j)).filterMap (Event.seen i) = [] := by
  simp [Event.seen, hij]

/-- A step of the shared loop is the same step of the loop that the connection sees. -/
theorem view_loopStep {b : Uvloop.Act Task} (ht : s.threads.step b = some (th, les)) :
    (s.view i).loopStep (b.map (Task.seen i)) = some ({ s with threads := th }.view i,
      (les.map (Uvloop.Event.map (Task.seen i))).map .loop) := by
  have hm : (s.threads.map (Task.seen i)).step (b.map (Task.seen i)) = _ :=
    Threads.step_map (Task.seen i) s.threads b
  rw [ht] at hm
  change Option.map _ ((s.threads.map (Task.seen i)).step _) = _
  rw [hm]
  rfl

theorem view_loop {b : Uvloop.Act Task} {c : Uvconnect.Act} (hl : LoopAct s a b c)
    (hc : s.crashed = none) (ht : s.threads.step b = some (th, les)) :
    (s.view i).step w c = some ({ s with threads := th }.view i,
      (les.map (Uvloop.Event.map (Task.seen i))).map .loop) := by
  have hv := view_loopStep (i := i) ht
  have hcr : (s.view i).crashed = false := view_crashed hc
  cases hl with
  | run t hi | stop t hi =>
    have hi' : (s.view i).Idle t := view_idle hi
    simp only [Uvconnect.step, hcr, Bool.false_eq_true, if_false, if_pos hi']
    exact hv
  | setRunning t =>
    simp only [Uvconnect.step, hcr, Bool.false_eq_true, if_false]
    exact hv

theorem view_turn {b : Turn} (hc : s.crashed = none) (hb : ¬ (b = .tcbReturn ∧ s.body.isSome))
    (ht : s.threads.step (.turn b) = some (th, les)) :
    (s.view i).step w (.turn b) =
      some ({ s with threads := th, body := s.nextBody b th.loop.position }.view i,
        (les.map (Uvloop.Event.map (Task.seen i))).map .loop) := by
  have hv : (s.view i).loopStep (.turn b) = _ := view_loopStep (i := i) ht
  have hcr : (s.view i).crashed = false := view_crashed hc
  have hb' : ¬ (b = .tcbReturn ∧ (s.view i).body.isSome) := by
    rwa [show (s.view i).body.isSome = s.body.isSome from Option.isSome_map]
  have hnext : (s.view i).nextBody b th.loop.position =
      (s.nextBody b th.loop.position).map (Task.seen i) := by
    cases b <;> cases th.loop.position <;> rfl
  simp only [Uvconnect.step, hcr, Bool.false_eq_true, if_false, if_neg hb', hv, Option.map_some]
  refine congrArg some (Prod.ext ?_ rfl)
  change { ({ s with threads := th }.view i) with
    body := (s.view i).nextBody b th.loop.position } = _
  rw [hnext]
  rfl

theorem view_lock (hc : s.crashed = none) (ht : s.threads.step (.lock t) = some (th, les)) :
    (s.view i).step w (.lock t) = some ({ s with threads := th }.view i,
      (les.map (Uvloop.Event.map (Task.seen i))).map .loop ++ (s.view i).lockResult t) := by
  have hv : (s.view i).loopStep (.lock t) = _ := view_loopStep (i := i) ht
  have hcr : (s.view i).crashed = false := view_crashed hc
  simp only [Uvconnect.step, hcr, Bool.false_eq_true, if_false, hv, Option.map_some]

theorem seen_lockResult (s : Host) (t : ℕ) :
    (s.lockResult t).filterMap (Event.seen i) = ((s.view i).lockResult t).filterMap shown := by
  have hcall : (s.view i).threads.call t = (s.threads.call t).map (Task.seen i) := rfl
  unfold lockResult Uvconnect.lockResult
  rw [hcall]
  cases s.threads.call t with
  | idle | starting => rfl
  | locking fill =>
    cases fill with
    | stop => rfl
    | addReq e cb => cases cb <;> rfl

theorem view_addReq (hc : s.crashed = none) (htask : (s.call t).task = some task)
    (hu : s.unregistered task = none)
    (ht : s.threads.step (.call t (.addReq task.eType (some task))) = some (th, les)) :
    (s.view i).step w (.addReq t) = some
      ({ s with threads := th, call := update s.call t .idle }.view i,
        (les.map (Uvloop.Event.map (Task.seen i))).map .loop ++
          if s.threads.loop.bRunning then [] else [.returned t (task.seen i) .stop]) := by
  have hcall : (s.view i).call t = .requesting (task.seen i) := Place.seen_task htask
  have hcr : (s.view i).crashed = false := view_crashed hc
  have hown : ((task.seen i).own && !(s.view i).ploop) = false := by
    cases task with
    | conn j req =>
      by_cases hj : j = i
      · subst hj
        simpa [unregistered, Task.seen, view] using hu
      · simp [Task.seen, hj, Req.own]
    | other => rfl
  have hv : (s.view i).loopStep (.call t (.addReq (task.seen i).eType (some (task.seen i)))) =
      some ({ s with threads := th }.view i,
        (les.map (Uvloop.Event.map (Task.seen i))).map .loop) := by
    rw [Task.seen_eType]
    exact view_loopStep ht
  simp only [Uvconnect.step, hcr, Bool.false_eq_true, if_false, hcall, hown, hv, Option.map_some]
  refine congrArg some (Prod.ext ?_ rfl)
  have hplace : update (s.view i).call t .idle =
      ({ s with threads := th, call := update s.call t .idle }.view i).call := by
    ext x : 1
    rcases eq_or_ne x t with rfl | hx
    · simp [view, Place.seen]
    · simp [view, hx]
  change { ({ s with threads := th }.view i) with call := update (s.view i).call t .idle } = _
  rw [hplace]
  rfl

/-! ## The connection itself -/

theorem put_self {c : Option ℕ} (ht : u.threads = (s.view i).threads)
    (hb : u.body = (s.view i).body) (ho : ∀ t, c ≠ some t → u.call t = (s.view i).call t) :
    (s.put i c (u, fs)).1.view i = u := by
  have hcrash : (s.put i c (u, fs)).1.crashed = if u.crashed then some i else none := rfl
  have hcr : decide ((s.put i c (u, fs)).1.crashed = some i) = u.crashed := by
    rw [hcrash]
    cases u.crashed <;> simp
  have hcall : ((s.put i c (u, fs)).1.view i).call = u.call := by
    ext t : 1
    cases c with
    | none => exact (ho t nofun).symm
    | some x =>
      rcases eq_or_ne t x with rfl | hx
      · simp [view, put, Place.seen_of]
      · have hx' : some x ≠ some t := fun he => hx (Option.some.inj he).symm
        rw [ho t hx']
        simp [view, put, hx]
  have hconn : (s.put i c (u, fs)).1.conn i = memberOf u := update_self ..
  unfold view at hcall ⊢
  dsimp only at hcall
  simp only [hcall, hcr, hconn]
  change { u with threads := (s.view i).threads, body := (s.view i).body } = u
  rw [← ht, ← hb]

/-- To the others it is a thread that comes to ask the loop for something. -/
theorem put_of_ne (hij : j ≠ i) (hc : s.crashed = none) (t : ℕ) :
    (s.put j (some t) (u, fs)).1.view i =
      { s.view i with call := update (s.view i).call t (foreign (u.call t)) } := by
  have hcrash : (s.put j (some t) (u, fs)).1.crashed = if u.crashed then some j else none := rfl
  have hcr : decide ((s.put j (some t) (u, fs)).1.crashed = some i) = (s.view i).crashed := by
    rw [hcrash, view_crashed hc]
    split <;> simp [hij]
  have hcall : ((s.put j (some t) (u, fs)).1.view i).call =
      update (s.view i).call t (foreign (u.call t)) := by
    ext x : 1
    rcases eq_or_ne x t with rfl | hx
    · simp [view, put, Place.seen_of_ne hij]
    · simp [view, put, hx]
  have hconn : (s.put j (some t) (u, fs)).1.conn i = s.conn i := update_of_ne hij.symm ..
  unfold view at hcall ⊢
  dsimp only at hcall
  simp only [hcall, hconn]
  rw [show decide ((s.put j (some t) (u, fs)).1.crashed = some i) = _ from hcr]
  rfl

theorem put_none_of_ne (hij : j ≠ i) (hc : s.crashed = none) :
    (s.put j none (u, fs)).1.view i = s.view i := by
  have hcrash : (s.put j none (u, fs)).1.crashed = if u.crashed then some j else none := rfl
  have hcr : decide ((s.put j none (u, fs)).1.crashed = some i) = (s.view i).crashed := by
    rw [hcrash, view_crashed hc]
    split <;> simp [hij]
  have hconn : (s.put j none (u, fs)).1.conn i = s.conn i := update_of_ne hij.symm ..
  unfold view
  simp only [hconn]
  rw [show decide ((s.put j none (u, fs)).1.crashed = some i) = _ from hcr]
  rfl

/-! ## The other users -/

/-- What another connection asks for in its close callback a thread can ask for that does
nothing else. -/
theorem run_atOnce (hG : Lenient G) (hc : u.crashed = false) (hi : u.Idle t) {e : EType}
    (he : e ≠ .loopStop) (id : ℕ) :
    ∃ fs, (Uvconnect.connection w).Run G u fs
      { u with threads := (u.threads.atOnce (.addReq e (some (.other e id)))).1 } ∧
      fs.filterMap shown =
        ((u.threads.atOnce (.addReq e (some (.other e id)))).2.map .loop).filterMap shown := by
  have hback : update (update u.call t (.requesting (.other e id))) t .idle = u.call := by
    rw [update_idem, ← hi.1, update_eq_self]
  have hask : u.step w (.request t (.other e id)) =
      some ({ u with call := update u.call t (.requesting (.other e id)) }, []) := by
    simp [Uvconnect.step, hc, hi, Uvconnect.begin]
  have hrun := System.Run.single (M := Uvconnect.connection w) (hG.request u t e id he) hask
  rcases Threads.steps_atOnce hi.2 (.addReq e (some (.other e id))) with
    ⟨hb, hcall⟩ | ⟨hb, hcall, hlock⟩
  · have hadd : Uvconnect.step w { u with call := update u.call t (.requesting (.other e id)) }
        (.addReq t) = some
        ({ u with threads := (u.threads.atOnce (.addReq e (some (.other e id)))).1 },
          (u.threads.atOnce (.addReq e (some (.other e id)))).2.map .loop ++
            [.returned t (.other e id) .stop]) := by
      simp [Uvconnect.step, Uvconnect.loopStep, hc, Req.own, Req.eType, hcall, hback, hb]
    refine ⟨_, hrun.trans (.single (hG.addReq _ t) hadd), ?_⟩
    simp [shown, Req.own]
  · have hadd : Uvconnect.step w { u with call := update u.call t (.requesting (.other e id)) }
        (.addReq t) = some ({ u with threads := { u.threads with
          call := update u.threads.call t (.locking (.addReq e (some (.other e id)))) } }, []) := by
      simp [Uvconnect.step, Uvconnect.loopStep, hc, Req.own, Req.eType, hcall, hback, hb]
    have hleave : Uvconnect.step w { u with threads := { u.threads with
        call := update u.threads.call t (.locking (.addReq e (some (.other e id)))) } } (.lock t) =
        some ({ u with threads := (u.threads.atOnce (.addReq e (some (.other e id)))).1 },
          (u.threads.atOnce (.addReq e (some (.other e id)))).2.map .loop ++
            [.returned t (.other e id)
              (if u.threads.loop.dAsync = [] then .busy else .noErr)]) := by
      simp [Uvconnect.step, Uvconnect.loopStep, hc, hlock, Uvconnect.lockResult]
    refine ⟨_, (hrun.trans (.single (hG.addReq _ t) hadd)).trans
      (.single (hG.lock _ t) hleave), ?_⟩
    simp [shown, Req.own]

/-! ## Steps of the shared loop -/

/-- A thread that enters a function of another connection, or goes on in it, is at most one
that comes to ask the loop for something. -/
theorem run_other (hG : Lenient G) (hi : s.Inv) (hc : s.crashed = none) (hij : j ≠ i)
    (ho : Own (s.view j) b u) (he : ∀ t ∈ enters b, s.Idle t) :
    ∃ fs', (Uvconnect.connection w).Run G (s.view i) fs' ((s.put j (caller b) (u, fs)).1.view i) ∧
      fs'.filterMap shown = [] := by
  cases hb : caller b with
  | none => exact ⟨[], .of_eq (put_none_of_ne hij hc), rfl⟩
  | some t =>
    obtain ⟨hold, henter⟩ := ho.before t hb
    have hidle : s.call t = .idle → s.Idle t := by
      intro ht
      exact he t (henter (by simp [view, ht, Place.seen]))
    have hseen : (s.view i).call t = .idle :=
      Place.seen_eq_idle hij hold fun ht => (he t (henter ht)).1
    have hview : (s.view i).Idle t := by
      refine ⟨hseen, Call.map_eq_idle.mpr ?_⟩
      by_cases ht : s.call t = .idle
      · exact (hidle ht).2
      · exact hi.free t ht
    rw [put_of_ne hij hc]
    cases hu : u.call t with
    | requesting req =>
      have hne : req.eType ≠ .loopStop := ho.after t req hb hu
      refine ⟨[], .single (hG.request _ t req.eType 0 hne) ?_, rfl⟩
      have hcr : (s.view i).crashed = false := view_crashed hc
      change Uvconnect.step w (s.view i) (.request t (.other req.eType 0)) = _
      simp [Uvconnect.step, hcr, hview, Uvconnect.begin, foreign]
    | idle | checked | obtained =>
      have hsame : update (s.view i).call t .idle = (s.view i).call := by
        rw [← hseen, update_eq_self]
      refine ⟨[], .of_eq ?_, rfl⟩
      change { s.view i with call := update (s.view i).call t .idle } = s.view i
      rw [hsame]

theorem view_perform (hc : s.crashed = none) (hb : s.body = some task) (err : ℤ) :
    ∃ fs, (s.view i).step w (.perform err) =
        some (({ s with body := none }.perform task err).1.view i, fs) ∧
      fs.filterMap shown =
        ({ s with body := none }.perform task err).2.filterMap (Event.seen i) := by
  have hcr : (s.view i).crashed = false := view_crashed hc
  have hbody : (s.view i).body = some (task.seen i) := by simp [view, hb]
  have hstep : (s.view i).step w (.perform err) =
      some (({ s with body := none }.view i).perform (task.seen i) err) := by
    rw [Uvconnect.step, if_neg (by simp [hcr])]
    simp only [hbody]
    rfl
  simp only [hstep, Option.some.injEq]
  cases task with
  | other e id => exact ⟨[], rfl, rfl⟩
  | conn j req =>
    by_cases hj : j = i
    · subst hj
      have hseen : (Task.conn j req).seen j = req := if_pos rfl
      have hp := (Uvconnect.perform_cases ({ s with body := none }.view j) req err).threads
      rw [hseen]
      refine ⟨_, Prod.ext (put_self hp.1 hp.2.2 fun t _ => congrFun hp.2.1 t).symm rfl, ?_⟩
      exact (seen_conn _).symm
    · have hseen : (Task.conn j req).seen i = .other req.eType 0 := if_neg hj
      rw [hseen]
      exact ⟨[], Prod.ext (put_none_of_ne (s := { s with body := none }) hj hc).symm rfl,
        (seen_conn_of_ne hj _).symm⟩

theorem connectToServer_eq (u : Uvconnect) (hp : u.ploop = true) :
    u.connectToServer =
      ({ u with threads := (u.threads.atOnce (.addReq .tcpConnect (some .connect))).1 },
        (u.threads.atOnce (.addReq .tcpConnect (some .connect))).2.map .loop) := by
  unfold Uvconnect.connectToServer Threads.atOnce
  rw [if_neg (by simp [hp])]
  split <;> rfl

theorem view_connectToServer (s : Host) (i : ℕ) :
    ((s.view i).connectToServer).1 = (s.connectToServer i).1.view i ∧
      ((s.view i).connectToServer).2.filterMap shown =
        (s.connectToServer i).2.filterMap (Event.seen i) := by
  cases hp : (s.conn i).ploop with
  | false =>
    have hp' : (s.view i).ploop = false := hp
    simp only [Uvconnect.connectToServer, connectToServer, if_pos hp, if_pos hp']
    refine ⟨?_, (seen_conn [.fault]).symm⟩
    simp [view, crash, Uvconnect.crash]
  | true =>
    have hp' : (s.view i).ploop = true := hp
    have hmap : (s.view i).threads.atOnce (.addReq .tcpConnect (some .connect)) =
        ((s.threads.atOnce (.addReq .tcpConnect (some (.conn i .connect)))).1.map (Task.seen i),
          (s.threads.atOnce (.addReq .tcpConnect (some (.conn i .connect)))).2.map
            (Uvloop.Event.map (Task.seen i))) := by
      rw [← Threads.atOnce_map]
      simp [Fill.map, Task.seen, view]
    rw [connectToServer_eq _ hp', hmap, connectToServer, if_neg (by simp [hp])]
    exact ⟨rfl, (seen_loop _).symm⟩

theorem view_closed (s : Host) (i h : ℕ) :
    ((s.view i).closed h).1 = (s.closed i h).1.view i ∧
      ((s.view i).closed h).2.filterMap shown = (s.closed i h).2.filterMap (Event.seen i) := by
  cases hr : (s.conn i).bReconect with
  | false =>
    have hr' : (s.view i).bReconect = false := hr
    simp only [Uvconnect.closed, closed, hr, hr', Bool.false_eq_true, if_false]
    simp [view]
  | true =>
    have hr' : (s.view i).bReconect = true := hr
    have hv := view_connectToServer { s with
      conn := update s.conn i { s.conn i with
        tcp := update (s.conn i).tcp h .closed
        bReconect := false } } i
    simp only [Uvconnect.closed, closed, hr, hr', if_true]
    rw [← hv.1, ← hv.2]
    simp [view]

theorem run_connectToServer (hG : Lenient G) (hi : s.Inv) (hc : s.crashed = none) (hij : j ≠ i) :
    ∃ fs, (Uvconnect.connection w).Run G (s.view i) fs ((s.connectToServer j).1.view i) ∧
      fs.filterMap shown = (s.connectToServer j).2.filterMap (Event.seen i) := by
  cases hp : (s.conn j).ploop with
  | false =>
    rw [connectToServer, if_pos hp]
    refine ⟨[], .of_eq ?_, (seen_conn_of_ne hij [.fault]).symm⟩
    simp [view, crash, hc, hij]
  | true =>
    obtain ⟨n, hn⟩ := hi.spare
    obtain ⟨fs, hrun, hfs⟩ := run_atOnce (w := w) hG (view_crashed (i := i) hc)
      (view_idle (hn n le_rfl)) (e := .tcpConnect) (by decide) 0
    have hmap : (s.view i).threads.atOnce (.addReq .tcpConnect (some (.other .tcpConnect 0))) =
        ((s.threads.atOnce (.addReq .tcpConnect (some (.conn j .connect)))).1.map (Task.seen i),
          (s.threads.atOnce (.addReq .tcpConnect (some (.conn j .connect)))).2.map
            (Uvloop.Event.map (Task.seen i))) := by
      rw [← Threads.atOnce_map]
      simp [Fill.map, Task.seen, view, hij, Req.eType]
    rw [hmap] at hrun hfs
    rw [connectToServer, if_neg (by simp [hp])]
    exact ⟨fs, hrun, hfs.trans (seen_loop _).symm⟩

theorem run_closed (hG : Lenient G) (hi : s.Inv) (hc : s.crashed = none) (hij : j ≠ i) (h : ℕ) :
    ∃ fs, (Uvconnect.connection w).Run G (s.view i) fs ((s.closed j h).1.view i) ∧
      fs.filterMap shown = (s.closed j h).2.filterMap (Event.seen i) := by
  have hview : ∀ m, { s with conn := update s.conn j m }.view i = s.view i := by
    intro m
    simp [view, hij.symm]
  cases hr : (s.conn j).bReconect with
  | false =>
    simp only [closed, hr, Bool.false_eq_true, if_false]
    exact ⟨[], .of_eq (hview _), rfl⟩
  | true =>
    simp only [closed, hr, if_true]
    rw [← hview]
    exact run_connectToServer hG (hi.of_eq rfl rfl) hc hij

theorem view_request (hc : s.crashed = none) (hi : s.Idle t) (e : EType) (id : ℕ) :
    (s.view i).step w (.request t (.other e id)) =
      some ({ s with call := update s.call t (.other e id) }.view i, []) := by
  have hview : (s.view i).Idle t := view_idle hi
  have hcall : update (s.view i).call t (.requesting (.other e id)) =
      ({ s with call := update s.call t (.other e id) }.view i).call := by
    ext x : 1
    rcases eq_or_ne x t with rfl | hx
    · simp [view, Place.seen]
    · simp [view, hx]
  rw [Uvconnect.step, if_neg (by simp [view_crashed hc])]
  simp only [if_pos hview, Uvconnect.begin, hcall]
  rfl

theorem run_fault (hG : Lenient G) (hc : s.crashed = none) (htask : (s.call t).task = some task)
    (hu : s.unregistered task = some j) :
    ∃ fs, (Uvconnect.connection w).Run G (s.view i) fs ({ s with crashed := some j }.view i) ∧
      fs.filterMap shown = [Event.conn j .fault].filterMap (Event.seen i) := by
  cases task with
  | other => cases hu
  | conn k req =>
    obtain ⟨hreq, hk⟩ := Option.ite_none_right_eq_some.mp hu
    obtain rfl : k = j := Option.some.inj hk
    by_cases hki : k = i
    · subst hki
      have hcall : (s.view k).call t = .requesting req := by
        rw [show (s.view k).call t = (s.call t).seen k from rfl, Place.seen_task htask]
        exact congrArg _ (if_pos rfl)
      have hreq' : (req.own && !(s.view k).ploop) = true := hreq
      refine ⟨[.fault], .of_step (hG.addReq _ t) ?_, (seen_conn [.fault]).symm⟩
      change Uvconnect.step w (s.view k) (.addReq t) = _
      rw [Uvconnect.step, if_neg (by simp [view_crashed hc])]
      simp only [hcall, hreq', if_true]
      simp [view, Uvconnect.crash]
    · refine ⟨[], .of_eq ?_, (seen_conn_of_ne hki [.fault]).symm⟩
      simp [view, hc, hki]

/-- Every step of the shared loop is a run of each connection. -/
theorem matches_view (hG : Lenient G) (w i : ℕ) :
    (hosting w).Matches (Uvconnect.connection w) (admits G i) G Inv (view i) (Event.seen i)
      shown := by
  intro s a s' es hi hg hs
  refine ⟨hi.step hs, ?_⟩
  obtain ⟨hc, hcases⟩ := step_cases hs
  cases hcases with
  | conn j b u fs ho he hu =>
    by_cases hj : j = i
    · subst hj
      have hown := own_of_step ho hu
      rw [put_self hown.threads hown.body hown.others, seen_conn]
      exact ⟨fs, .of_step (hg rfl) hu, rfl⟩
    · rw [seen_conn_of_ne hj]
      exact run_other hG hi hc hj (own_of_step ho hu) he
  | closeCb j h hp ht =>
    by_cases hj : j = i
    · subst hj
      obtain ⟨hst, hfs⟩ := view_closed s j h
      rw [← hst]
      refine ⟨_, .of_step (hg rfl) ?_, hfs⟩
      have hcr : ¬ (s.view j).crashed = true := by simp [view_crashed hc]
      change Uvconnect.step w (s.view j) (.closeCb h) = some ((s.view j).closed h)
      rw [Uvconnect.step, if_neg hcr]
      exact if_pos ⟨hp, ht⟩
    · exact run_closed hG hi hc hj h
  | loop a b c th les hl ht =>
    have hstep := view_loop (w := w) (i := i) hl hc ht
    refine ⟨_, .of_step ?_ hstep, (seen_loop les).symm⟩
    cases hl <;> exact hg
  | request t e id hidle => exact ⟨[], .of_step hg (view_request (w := w) hc hidle e id), rfl⟩
  | addReqFault t j task htask hu => exact run_fault hG hc htask hu
  | addReq t task th les htask hu ht =>
    refine ⟨_, .of_step (hG.addReq _ t) (view_addReq (w := w) hc htask hu ht), ?_⟩
    rw [List.filterMap_append, List.filterMap_append, ← seen_loop]
    split <;> rfl
  | lock t th les ht =>
    refine ⟨_, .of_step (hG.lock _ t) (view_lock (w := w) hc ht), ?_⟩
    rw [List.filterMap_append, List.filterMap_append, ← seen_loop, seen_lockResult]
  | turn b th les ht hb =>
    exact ⟨_, .of_step hg (view_turn (w := w) hc hb ht), (seen_loop les).symm⟩
  | perform task err hb =>
    obtain ⟨fs, hstep, hfs⟩ := view_perform (w := w) (i := i) hc hb err
    exact ⟨fs, .of_step hg hstep, hfs⟩

/-- Every history of a loop with any number of connections is, seen by one of them, a history
of that connection alone: with the same events of its own, and in the state that its code
works on. -/
theorem connection_of_reach (hG : Lenient G) (i : ℕ) {tr : List Event}
    (h : (hosting w).Reach (admits G i) tr s) :
    ∃ fs, (Uvconnect.connection w).Reach G fs (s.view i) ∧
      fs.filterMap shown = tr.filterMap (Event.seen i) := by
  refine ((matches_view hG w i).reach ?_ h).2
  rintro s ⟨garbage, send, rfl⟩
  exact ⟨create_inv garbage send, garbage, send i, rfl⟩

/-- A connection that was accepted reads next to one that dials, which an accepted one would
not do. -/
theorem connection_of_reach_example : ∃ tr s,
    (hosting 64).Reach (admits Uvconnect.serverSide 0) tr s ∧
      .conn 1 (.tcpConnect 0 (some ("127.0.0.1", 7))) ∈ tr ∧
      .conn 0 (.readStart 0 .connected) ∈ tr ∧
      ∃ fs, (Uvconnect.connection 64).Reach Uvconnect.serverSide fs (s.view 0) ∧
        fs.filterMap shown = tr.filterMap (Event.seen 0) := by
  obtain ⟨tr, s, hr, hp⟩ := System.exists_run_of_exec (M := hosting 64)
    (G := admits Uvconnect.serverSide 0)
    (s := create (fun _ => .loopStop) fun _ _ => ⟨⟨none, 0, 0, 0⟩, ⟨none, 0⟩⟩)
    [.run 1, .setRunning 1, .conn 0 .registerloopAndStream, .conn 1 .registerConnect,
      .conn 1 (.setIPAndAddr ("127.0.0.1", 7)), .conn 0 (.request 1 .startReadData),
      .conn 1 (.request 2 .connectToServer), .addReq 1, .addReq 2, .lock 2, .lock 1,
      .turn (.fire 0), .perform 0, .turn .tcbReturn, .turn .recycle, .turn (.fire 1), .perform 0]
    (p := fun _ tr => decide (.conn 1 (.tcpConnect 0 (some ("127.0.0.1", 7))) ∈ tr ∧
      .conn 0 (.readStart 0 .connected) ∈ tr)) (by decide +kernel)
  have h : (hosting 64).Reach (admits Uvconnect.serverSide 0) tr s := ⟨_, ⟨_, _, rfl⟩, hr⟩
  have hG : Lenient Uvconnect.serverSide :=
    ⟨fun _ _ _ _ _ => trivial, fun _ _ => trivial, fun _ _ => trivial⟩
  exact ⟨tr, s, h, (of_decide_eq_true hp).1, (of_decide_eq_true hp).2,
    connection_of_reach hG 0 h⟩

end UvWrapper.Host
