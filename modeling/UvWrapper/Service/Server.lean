import UvWrapper.Server.Listening
import UvWrapper.Service.Accepted

/-! # The server of a service

To the server its connections are users of the loop like any other. What the server does and what
becomes of its handles is what a server alone can do, whatever happens on the connections.
-/

namespace UvWrapper.Service

open Function Transition Uvloop

variable {w i t : ℕ} {s s' : Service} {a : Act} {es tr : List Event} {b : Host.Act} {host : Host}
  {fs : List Host.Event} {task : Host.Task} {p : Host.Place} {c : Call Host.Task}
  {th : Threads Host.Task} {les : List (Uvloop.Event Host.Task)} {u v : TcpServer}
  {us : List TcpServer.Event} {G : TcpServer → TcpServer.Act → Prop}

/-- The events of a server without what its functions and other users are told by `AddReq`. -/
def unreturned : TcpServer.Event → Option TcpServer.Event
  | .returned _ _ => none
  | e => some e

def Event.served : Event → Option TcpServer.Event
  | .host (.loop e) => some (.loop (e.map serves))
  | .server e => unreturned e
  | _ => none

def serverAdmits (G : TcpServer → TcpServer.Act → Prop) (s : Service) : Act → Prop
  | .server b => G s.server b
  | .serverListenStart ini bnd lis => G s.server (.perform ini bnd lis)
  | .connectionCb h status ini acc => G s.server (.connectionCb h status ini acc)
  | .host _ | .launch _ | .addReq _ => True

instance [∀ v, DecidablePred (G v)] (s : Service) : DecidablePred (serverAdmits G s) := fun a =>
  match a with
  | .server b => inferInstanceAs (Decidable (G s.server b))
  | .serverListenStart ini bnd lis =>
    inferInstanceAs (Decidable (G s.server (.perform ini bnd lis)))
  | .connectionCb h status ini acc =>
    inferInstanceAs (Decidable (G s.server (.connectionCb h status ini acc)))
  | .host _ | .launch _ | .addReq _ => .isTrue trivial

/-- `G` admits what others do, and what the loop needs. -/
structure Lenient (G : TcpServer → TcpServer.Act → Prop) : Prop where
  request : ∀ u t e id, G u (.request t (.other e id))
  addReq : ∀ u t, G u (.addReq t)
  lock : ∀ u t, G u (.lock t)
  run : ∀ u t, G u (.run t)
  setRunning : ∀ u t, G u (.setRunning t)
  stop : ∀ u t, G u (.stop t)
  turn : ∀ u a, G u (.turn a)
  perform : ∀ u, G u (.perform 0 0 0)

/-! ## What the server sees of a state -/

theorem serves_of_ne (h : task ≠ listenTask) : serves task = .other task.eType (number task) :=
  if_neg h

theorem serves_eType (task : Host.Task) : (serves task).eType = task.eType := by
  by_cases h : task = listenTask
  · rw [h]
    rfl
  · rw [serves_of_ne h]
    rfl

theorem foreign_of_task (h : p.task = some task) :
    foreign p c = .adding task.eType (number task) := by
  simp [foreign, h]

theorem foreign_of_idle (h : p.task = none) : foreign p .idle = .idle := by
  simp [foreign, h]

theorem place_of_ne (h : s.call t ≠ .idle) : s.place t = s.call t := if_neg h

theorem place_of_idle (h : s.call t = .idle) :
    s.place t = foreign (s.host.call t) (s.host.threads.call t) := if_pos h

theorem place_congr (hc : s'.call t = s.call t) (hp : s'.host.call t = s.host.call t)
    (ht : s'.host.threads.call t = s.host.threads.call t) : s.place t = s'.place t := by
  simp only [place, hc, hp, ht]

theorem server_eq (hth : v.threads = s.host.threads.map serves) (hl : v.listner = s.listner)
    (hip : v.ip = s.ip) (htcps : v.tcps = s.tcps) (hlis : v.listens = s.listens)
    (hcall : ∀ t, v.call t = s.place t) (hb : v.body = s.host.body.map serves)
    (hc : v.crashed = s.crashed) : v = s.server := by
  cases v
  dsimp only at hth hl hip htcps hlis hcall hb hc
  obtain rfl := funext hcall
  subst hth hl hip htcps hlis hb hc
  rfl

theorem update_place {q : TcpServer.Caller} (ht : s'.place t = q)
    (hx : ∀ x ≠ t, s.place x = s'.place x) (x : ℕ) : update s.place t q x = s'.place x := by
  rcases eq_or_ne x t with rfl | hne
  · rw [update_self, ht]
  · rw [update_of_ne hne]
    exact hx x hne

theorem task_of_foreign (h : Host.foreign (p.seen i) = .idle) : p.task = none := by
  cases p with
  | idle => rfl
  | other => cases h
  | conn j q =>
    cases q with
    | requesting req =>
      by_cases hj : j = i <;> simp [Host.Place.seen, Host.foreign, hj] at h
    | idle | checked | obtained => rfl

theorem server_idle (h : s.Idle t) : s.server.Idle t := by
  obtain ⟨hc, hp, ht⟩ := h
  constructor
  · change s.place t = .idle
    rw [place_of_idle hc, hp, ht]
    rfl
  · exact Call.map_eq_idle.mpr ht

theorem served_loop (les : List (Uvloop.Event Host.Task)) :
    ((les.map (Uvloop.Event.map serves)).map TcpServer.Event.loop).filterMap unreturned =
      ((les.map Host.Event.loop).map Event.host).filterMap Event.served := by
  simp only [List.map_map, List.filterMap_map]
  rfl

theorem served_conn (i : ℕ) (gs : List Uvconnect.Event) :
    ((gs.map (Host.Event.conn i)).map Event.host).filterMap Event.served = [] := by
  simp only [List.map_map, List.filterMap_map]
  exact List.filterMap_eq_nil_iff.mpr fun _ _ => rfl

theorem served_server (us : List TcpServer.Event) :
    (us.map Event.server).filterMap Event.served = us.filterMap unreturned := by
  rw [List.filterMap_map]
  rfl

theorem server_loopStep {d : Uvloop.Act Host.Task} (ht : s.host.threads.step d = some (th, les)) :
    s.server.loopStep (d.map serves) = some ({ s.server with threads := th.map serves },
      (les.map (Uvloop.Event.map serves)).map .loop) := by
  have hm : (s.host.threads.map serves).step (d.map serves) = _ :=
    Threads.step_map serves s.host.threads d
  rw [ht] at hm
  change Option.map _ ((s.host.threads.map serves).step _) = _
  rw [hm]
  rfl

theorem seen_step {d : TcpServer.Act} (hg : G s.server d) (hs : s.server.step d = some (v, us))
    (hv : v = s'.server) (hus : us.filterMap unreturned = es.filterMap Event.served) :
    ∃ us, TcpServer.serving.Run G s.server us s'.server ∧
      us.filterMap unreturned = es.filterMap Event.served :=
  ⟨us, .of_step hg (hv ▸ hs), hus⟩

theorem unseen (hv : s.server = s'.server) (hes : es.filterMap Event.served = []) :
    ∃ us, TcpServer.serving.Run G s.server us s'.server ∧
      us.filterMap unreturned = es.filterMap Event.served :=
  ⟨[], .of_eq hv.symm, hes.symm⟩

/-! ## Others that ask the loop -/

/-- What a connection asks for in its close callback a thread can ask for that does nothing
else. -/
theorem run_atOnce (hG : Lenient G) (hc : v.crashed = false) (hi : v.Idle t) (e : EType) (id : ℕ) :
    ∃ us, TcpServer.serving.Run G v us
      { v with threads := (v.threads.atOnce (.addReq e (some (.other e id)))).1 } ∧
      us.filterMap unreturned =
        ((v.threads.atOnce (.addReq e (some (.other e id)))).2.map .loop).filterMap unreturned := by
  have hback : update (update v.call t (.adding e id)) t .idle = v.call := by
    rw [update_idem, ← hi.1, update_eq_self]
  have hask : v.step (.request t (.other e id)) =
      some ({ v with call := update v.call t (.adding e id) }, []) := by
    simp [TcpServer.step, hc, hi, TcpServer.begin]
  have hrun := System.Run.single (M := TcpServer.serving) (hG.request v t e id) hask
  rcases Threads.steps_atOnce hi.2 (.addReq e (some (.other e id))) with
    ⟨hb, hcall⟩ | ⟨hb, hcall, hlock⟩
  · have hadd : TcpServer.step { v with call := update v.call t (.adding e id) } (.addReq t) = some
        ({ v with threads := (v.threads.atOnce (.addReq e (some (.other e id)))).1 },
          (v.threads.atOnce (.addReq e (some (.other e id)))).2.map .loop ++
            [.returned t (TcpServer.Caller.result (.adding e id) .stop)]) := by
      simp [TcpServer.step, TcpServer.loopStep, TcpServer.finish, TcpServer.Caller.request,
        TcpServer.Req.eType, hc, hcall, hb, hback]
    refine ⟨_, hrun.trans (.single (hG.addReq _ t) hadd), ?_⟩
    simp [unreturned]
  · have hadd : TcpServer.step { v with call := update v.call t (.adding e id) } (.addReq t) =
        some ({ v with
          call := update v.call t (.adding e id)
          threads := { v.threads with
            call := update v.threads.call t (.locking (.addReq e (some (.other e id)))) } },
          []) := by
      simp [TcpServer.step, TcpServer.loopStep, TcpServer.Caller.request, TcpServer.Req.eType, hc,
        hcall, hb]
    have hleave : TcpServer.step { v with
        call := update v.call t (.adding e id)
        threads := { v.threads with
          call := update v.threads.call t (.locking (.addReq e (some (.other e id)))) } }
          (.lock t) =
        some ({ v with threads := (v.threads.atOnce (.addReq e (some (.other e id)))).1 },
          (v.threads.atOnce (.addReq e (some (.other e id)))).2.map .loop ++
            [.returned t (TcpServer.Caller.result (.adding e id)
              (if v.threads.loop.dAsync = [] then .busy else .noErr))]) := by
      simp [TcpServer.step, TcpServer.loopStep, TcpServer.finish, TcpServer.Caller.request, hc,
        hlock, hback]
    refine ⟨_, (hrun.trans (.single (hG.addReq _ t) hadd)).trans
      (.single (hG.lock _ t) hleave), ?_⟩
    simp [unreturned]

theorem atOnce_call (th : Threads Host.Task) (fill : Fill Host.Task) :
    (th.atOnce fill).1.call = th.call := by
  unfold Threads.atOnce
  split <;> rfl

theorem run_connectToServer (hG : Lenient G) (hc : s.crashed = false) (hidle : s.Idle t) (i : ℕ) :
    ∃ us, TcpServer.serving.Run G s.server us
      { s with host := (s.host.connectToServer i).1 }.server ∧
      us.filterMap unreturned =
        ((s.host.connectToServer i).2.map Event.host).filterMap Event.served := by
  cases hp : (s.host.conn i).ploop with
  | false =>
    rw [Host.connectToServer, if_pos hp]
    exact unseen rfl (served_conn i [.fault])
  | true =>
    obtain ⟨us, hrun, hus⟩ := run_atOnce hG (v := s.server) hc (server_idle hidle) .tcpConnect 0
    have hmap : s.server.threads.atOnce (.addReq .tcpConnect (some (.other .tcpConnect 0))) =
        ((s.host.threads.atOnce (.addReq .tcpConnect (some (.conn i .connect)))).1.map serves,
          (s.host.threads.atOnce (.addReq .tcpConnect (some (.conn i .connect)))).2.map
            (Uvloop.Event.map serves)) := by
      rw [← Threads.atOnce_map]
      rfl
    have hcall := atOnce_call s.host.threads (.addReq .tcpConnect (some (.conn i .connect)))
    rw [hmap] at hrun hus
    rw [Host.connectToServer, if_neg (by simp [hp])]
    cases hth : s.host.threads.atOnce (.addReq .tcpConnect (some (.conn i .connect))) with
    | mk th les =>
      rw [hth] at hrun hus hcall
      have hv : { s.server with threads := th.map serves } =
          { s with host := { s.host with threads := th } }.server := by
        refine server_eq rfl rfl rfl rfl rfl (fun x => ?_) rfl rfl
        exact place_congr (s := s) rfl rfl (congrFun hcall x)
      exact ⟨us, hv ▸ hrun, hus.trans (served_loop les)⟩

theorem run_closed (hG : Lenient G) (hc : s.crashed = false) (hidle : s.Idle t) (i h : ℕ) :
    ∃ us, TcpServer.serving.Run G s.server us { s with host := (s.host.closed i h).1 }.server ∧
      us.filterMap unreturned = ((s.host.closed i h).2.map Event.host).filterMap Event.served := by
  cases hr : (s.host.conn i).bReconect with
  | false =>
    simp only [Host.closed, hr, Bool.false_eq_true, if_false]
    exact unseen rfl rfl
  | true =>
    simp only [Host.closed, hr, if_true]
    have hrun := run_connectToServer (s := { s with host := { s.host with
      conn := update s.host.conn i { s.host.conn i with
        tcp := update (s.host.conn i).tcp h .closed
        bReconect := false } } }) hG hc hidle i
    exact hrun

/-- A thread that comes to another place outside the loop is at most one that is about to ask the
loop for something. -/
theorem run_moved (hG : Lenient G) (hc : s.crashed = false) (hst : s.call t = .idle)
    (hidle : s.server.Idle t) (hcall : host.call = update s.host.call t p)
    (ht : host.threads = s.host.threads) (hb : host.body = s.host.body) :
    ∃ us, TcpServer.serving.Run G s.server us { s with host }.server ∧
      us.filterMap unreturned = [] := by
  have hthread : s.host.threads.call t = .idle := Call.map_eq_idle.mp hidle.2
  have hothers : ∀ x ≠ t, s.place x = place { s with host } x := fun x hx =>
    place_congr rfl (by rw [hcall]; exact update_of_ne hx ..) (by rw [ht])
  have hplace : place { s with host } t = foreign p .idle := by
    rw [place_of_idle (s := { s with host }) hst, hcall, update_self, ht, hthread]
  have hth : s.host.threads.map serves = host.threads.map serves := by rw [ht]
  have hbody : s.host.body.map serves = host.body.map serves := by rw [hb]
  cases htask : p.task with
  | none =>
    refine ⟨[], .of_eq (server_eq hth rfl rfl rfl rfl (fun x => ?_) hbody rfl).symm, rfl⟩
    rcases eq_or_ne x t with rfl | hx
    · rw [hplace, foreign_of_idle htask]
      exact hidle.1
    · exact hothers x hx
  | some task =>
    rw [foreign_of_task htask] at hplace
    have hstep : s.server.step (.request t (.other task.eType (number task))) = some
        ({ s.server with call := update s.server.call t (.adding task.eType (number task)) },
          []) := by
      rw [TcpServer.step, if_neg (by simp [server, hc])]
      exact if_pos hidle
    have hv : { s.server with call := update s.server.call t (.adding task.eType (number task)) } =
        { s with host }.server :=
      server_eq hth rfl rfl rfl rfl (update_place hplace hothers) hbody rfl
    exact ⟨[], .of_step (hG.request _ t _ _) (hv ▸ hstep), rfl⟩

theorem run_conn {c : Uvconnect.Act} {u : Uvconnect} (hG : Lenient G) (hi : s.Inv)
    (hc : s.crashed = false) (hb : s.Apart (.conn i c)) (ho : Host.Own (s.host.view i) c u)
    (he : ∀ t ∈ Host.enters c, s.host.Idle t) (gs : List Uvconnect.Event) :
    ∃ us, TcpServer.serving.Run G s.server us
      { s with host := (s.host.put i (Host.caller c) (u, gs)).1 }.server ∧
      us.filterMap unreturned = [] := by
  cases hcaller : Host.caller c with
  | none => exact ⟨[], .of_eq rfl, rfl⟩
  | some t =>
    obtain ⟨hold, henter⟩ := ho.before t hcaller
    have henter' : s.host.call t = .idle → Host.enters c = some t := fun h =>
      henter (by simp [Host.view, h, Host.Place.seen])
    have hst : s.call t = .idle := by
      by_contra hne
      exact hne (hb.2 t (henter' (hi.apart t hne)))
    have hthread : s.host.threads.call t = .idle := by
      by_cases h : s.host.call t = .idle
      · exact (he t (henter' h)).2
      · exact hi.host.free t h
    have hplace : s.place t = .idle := by
      rw [place_of_idle hst, hthread]
      exact foreign_of_idle (task_of_foreign hold)
    exact run_moved hG hc hst ⟨hplace, Call.map_eq_idle.mpr hthread⟩ rfl rfl rfl

/-! ## Steps of the loop -/

/-- A thread that comes from `run` or from leaving the lock after `stop`, or goes there, asks for
nothing. -/
theorem place_loop {c : Uvconnect.Act} {d : Uvloop.Act Host.Task} (hi : s.Inv)
    (hl : Host.LoopAct s.host b d c) (ht : s.host.threads.step d = some (th, les)) (x : ℕ) :
    s.place x = place { s with host := { s.host with threads := th } } x := by
  by_cases hx : d.thread = some x
  · cases hl with
    | run t hidle =>
      obtain rfl := Option.some.inj hx
      cases Threads.step_cases ht with
      | run _ l hcall => simp [place, foreign, hidle.1, hcall, Host.Place.task]
    | stop t hidle =>
      obtain rfl := Option.some.inj hx
      cases Threads.step_cases ht with
      | called _ _ hcall => simp [place, foreign, hidle.1, hcall, Host.Place.task]
      | refused => rfl
    | setRunning t =>
      obtain rfl := Option.some.inj hx
      cases Threads.step_cases ht with
      | setRunning _ hcall =>
        have hidle : s.host.call t = .idle := by
          by_contra hne
          cases hcall.symm.trans (hi.host.free t hne)
        simp [place, foreign, hidle, hcall, Host.Place.task]
  · exact place_congr rfl rfl (Threads.call_of_ne ht hx)

theorem place_ran (hi : s.Inv) (ht : s.host.threads.step (.setRunning t) = some (th, les)) (x : ℕ) :
    update s.place t (s.place t).ran x = place { s with
      host := { s.host with threads := th }
      call := update s.call t (s.call t).ran } x := by
  refine update_place ?_ (fun x hx => ?_) x
  · have hloop : s.place t = _ := place_loop hi (.setRunning t) ht t
    by_cases hst : s.call t = .idle
    · have hidle : s.place t = .idle := by
        cases Threads.step_cases ht with
        | setRunning _ hcall =>
          have hout : s.host.call t = .idle := by
            by_contra hne
            cases hcall.symm.trans (hi.host.free t hne)
          rw [place_of_idle hst, hout, hcall]
          rfl
      have hafter : foreign (s.host.call t) (th.call t) = .idle := by
        rw [← hidle, hloop]
        exact (if_pos hst).symm
      have hran : update s.call t (s.call t).ran t = .idle := by
        rw [update_self, hst]
        rfl
      rw [hidle]
      exact (if_pos hran).trans hafter
    · have hne : (s.call t).ran ≠ .idle := by
        cases h : s.call t with
        | idle => exact absurd h hst
        | _ => simp [TcpServer.Caller.ran]
      simp [place, hst, hne]
  · have hne : (Uvloop.Act.setRunning t : Uvloop.Act Host.Task).thread ≠ some x := by
      simpa [Uvloop.Act.thread] using hx.symm
    exact place_congr (update_of_ne hx ..) rfl (Threads.call_of_ne ht hne)

theorem run_loop {c : Uvconnect.Act} {d : Uvloop.Act Host.Task} (hG : Lenient G) (hi : s.Inv)
    (hc : s.crashed = false) (hb : s.Apart b) (hl : Host.LoopAct s.host b d c)
    (ht : s.host.threads.step d = some (th, les)) :
    ∃ us, TcpServer.serving.Run G s.server us (s.goOn b
        ({ s with host := { s.host with threads := th } }, (les.map .loop).map .host)).1.server ∧
      us.filterMap unreturned = ((s.goOn b ({ s with host := { s.host with threads := th } },
        (les.map .loop).map .host)).2).filterMap Event.served := by
  have hloop := server_loopStep ht
  have hplace := place_loop hi hl ht
  have hcr : ¬ s.server.crashed = true := by simp [server, hc]
  have hv : { s.server with threads := th.map serves } =
      { s with host := { s.host with threads := th } }.server :=
    server_eq rfl rfl rfl rfl rfl hplace rfl rfl
  cases hl with
  | run t hidle =>
    have hcall : s.server.call t = .idle := (server_idle ⟨hb, hidle⟩).1
    refine seen_step (d := .run t) (hG.run _ t) ?_ hv (served_loop les)
    rw [TcpServer.step, if_neg hcr]
    simp only [TcpServer.launch, hcall]
    exact hloop
  | stop t hidle =>
    have hidle' : s.server.Idle t := server_idle ⟨hb, hidle⟩
    refine seen_step (d := .stop t) (hG.stop _ t) ?_ hv (served_loop les)
    rw [TcpServer.step, if_neg hcr]
    simp only [if_pos hidle']
    exact hloop
  | setRunning t =>
    have hstep : s.server.step (.setRunning t) = some ({ s.server with
        threads := th.map serves
        call := update s.server.call t (s.server.call t).ran },
        (les.map (Uvloop.Event.map serves)).map .loop) := by
      rw [TcpServer.step, if_neg hcr]
      exact congrArg (Option.map _) hloop
    refine seen_step (hG.setRunning _ t) hstep ?_ (served_loop les)
    exact server_eq rfl rfl rfl rfl rfl (place_ran hi ht) rfl rfl

/-! ## `AddReq` of others -/

theorem step_addReq {req : TcpServer.Req} {q : TcpServer × List TcpServer.Event}
    (hc : s.crashed = false) (hreq : (s.server.call t).request = some req)
    (hp : req = .serverListenStart → s.listner.ploop = true)
    (hl : s.server.loopStep (.call t (.addReq req.eType (some req))) = some q) :
    s.server.step (.addReq t) =
      some (if s.host.threads.loop.bRunning then q else s.server.finish t .stop q) := by
  have hcr : ¬ s.server.crashed = true := by simp [server, hc]
  have hploop : ¬ (req = .serverListenStart ∧ s.server.listner.ploop = false) := by
    rintro ⟨he, hf⟩
    exact Bool.false_ne_true (hf.symm.trans (hp he))
  rw [TcpServer.step, if_neg hcr]
  simp only [hreq, if_neg hploop, hl]
  rfl

theorem place_of_task (hi : s.Inv) (h : (s.host.call t).task = some task) :
    s.call t = .idle ∧ s.place t = .adding task.eType (number task) ∧
      serves task = .other task.eType (number task) := by
  have hst : s.call t = .idle := by
    by_contra hne
    rw [hi.apart t hne] at h
    cases h
  have hne : task ≠ listenTask := by
    rintro rfl
    cases hp : s.host.call t with
    | idle =>
      rw [hp] at h
      cases h
    | other e id =>
      rw [hp] at h
      refine hi.others t ?_
      obtain ⟨rfl, rfl⟩ : e = .tcpListen ∧ id = 0 := by
        simpa [Host.Place.task, listenTask] using h
      exact hp
    | conn j q =>
      rw [hp] at h
      cases q <;> simp [Host.Place.task, listenTask] at h
  refine ⟨hst, ?_, serves_of_ne hne⟩
  rw [place_of_idle hst, foreign_of_task h]

theorem served_returned (les : List (Uvloop.Event Host.Task)) {gs : List Host.Event}
    (hg : ∀ e ∈ gs, ∃ t task err, e = .returned t task err) :
    ((les.map Host.Event.loop ++ gs).map Event.host).filterMap Event.served =
      ((les.map (Uvloop.Event.map serves)).map TcpServer.Event.loop).filterMap unreturned := by
  have hnil : (gs.map Event.host).filterMap Event.served = [] := by
    rw [List.filterMap_eq_nil_iff]
    intro e he
    obtain ⟨f, hf, rfl⟩ := List.mem_map.mp he
    obtain ⟨t, task, err, rfl⟩ := hg f hf
    rfl
  rw [List.map_append, List.filterMap_append, hnil, List.append_nil, served_loop]

theorem run_addReq (hG : Lenient G) (hi : s.Inv) (hc : s.crashed = false)
    (htask : (s.host.call t).task = some task)
    (ht : s.host.threads.step (.call t (.addReq task.eType (some task))) = some (th, les)) :
    ∃ us, TcpServer.serving.Run G s.server us { s with host := { s.host with
        threads := th
        call := update s.host.call t .idle } }.server ∧
      us.filterMap unreturned = ((les.map Host.Event.loop ++
        if s.host.threads.loop.bRunning then [] else
          [Host.Event.returned t task .stop]).map Event.host).filterMap Event.served := by
  obtain ⟨hst, hplace, hserves⟩ := place_of_task hi htask
  have hreq : (s.server.call t).request = some (serves task) := by
    change (s.place t).request = _
    rw [hplace, hserves]
    rfl
  have hloop : s.server.loopStep (.call t (.addReq (serves task).eType (some (serves task)))) = _ :=
    serves_eType task ▸ server_loopStep ht
  have hstep := step_addReq hc hreq (by simp [hserves]) hloop
  have hothers : ∀ x ≠ t, s.place x = place { s with host := { s.host with
      threads := th
      call := update s.host.call t .idle } } x := by
    intro x hx
    have hne : (Uvloop.Act.call t (.addReq task.eType (some task))).thread ≠ some x := by
      simpa [Uvloop.Act.thread] using hx.symm
    exact place_congr rfl (update_of_ne hx ..) (Threads.call_of_ne ht hne)
  cases Threads.step_cases ht with
  | called _ _ hidle hr =>
    rw [if_pos hr] at hstep ⊢
    refine seen_step (hG.addReq _ t) hstep ?_ (served_returned [] (by simp)).symm
    refine server_eq rfl rfl rfl rfl rfl (fun x => ?_) rfl rfl
    rcases eq_or_ne x t with rfl | hx
    · exact hplace.trans (by simp [place, hst, foreign, Host.Place.task])
    · exact hothers x hx
  | refused _ _ hidle hr =>
    have hf : ¬ s.host.threads.loop.bRunning = true := by simp [hr]
    rw [if_neg hf, TcpServer.finish, hreq] at hstep
    rw [if_neg hf]
    refine seen_step (hG.addReq _ t) hstep ?_ ?_
    · refine server_eq rfl rfl rfl rfl rfl (update_place ?_ hothers) rfl rfl
      simp [place, hst, foreign, Host.Place.task, hidle]
    · rw [served_returned _ (by simp), List.filterMap_append]
      exact List.append_nil _

/-! ## The lock -/

theorem foreign_request (h : (foreign .idle c).request = none) : foreign .idle c = .idle := by
  cases c with
  | idle | starting => rfl
  | locking fill =>
    cases fill with
    | stop => rfl
    | addReq e cb =>
      cases cb with
      | none => rfl
      | some task => cases h

/-- A call ends as the server sees it where it ends in its own functions, or was nobody's of its
own. -/
theorem finish_server {us : List TcpServer.Event} {gs : List Event} (err : LoopErr)
    (hi : s.Inv) (ht : s.host.threads.step (.lock t) = some (th, les))
    (hus : us.filterMap unreturned = gs.filterMap Event.served) :
    (s.server.finish t err ({ s.server with threads := th.map serves }, us)).1 =
      (s.finish t err ({ s with host := { s.host with threads := th } }, gs)).1.server ∧
    (s.server.finish t err ({ s.server with threads := th.map serves }, us)).2.filterMap
        unreturned =
      (s.finish t err ({ s with host := { s.host with threads := th } }, gs)).2.filterMap
        Event.served := by
  obtain ⟨fill, hcall, hth, -⟩ := Threads.lock_cases ht
  have hidle : s.host.call t = .idle := by
    by_contra hne
    cases hcall.symm.trans (hi.host.free t hne)
  have hne : ∀ x ≠ t, th.call x = s.host.threads.call x := fun x hx => by
    rw [hth]
    exact update_of_ne hx ..
  have hback : th.call t = .idle := by rw [hth, update_self]
  by_cases hst : s.call t = .idle
  · have hplace : s.server.call t = foreign .idle (.locking fill) := by
      rw [← hidle, ← hcall]
      exact place_of_idle hst
    have hafter : place { s with host := { s.host with threads := th } } t = .idle := by
      simp [place, hst, foreign, hidle, hback, Host.Place.task]
    have hothers : ∀ x ≠ t,
        s.place x = place { s with host := { s.host with threads := th } } x := fun x hx =>
      place_congr rfl rfl (hne x hx)
    have hnone : (s.call t).request = none := by
      rw [hst]
      rfl
    simp only [TcpServer.finish, finish, hnone]
    cases hreq : (s.server.call t).request with
    | none =>
      refine ⟨server_eq rfl rfl rfl rfl rfl (fun x => ?_) rfl rfl, hus⟩
      rcases eq_or_ne x t with rfl | hx
      · rw [hafter]
        rw [hplace] at hreq ⊢
        exact foreign_request hreq
      · exact hothers x hx
    | some req =>
      refine ⟨server_eq rfl rfl rfl rfl rfl (update_place hafter hothers) rfl rfl, ?_⟩
      rw [List.filterMap_append, hus]
      exact List.append_nil _
  · have hplace : s.server.call t = s.call t := place_of_ne hst
    simp only [TcpServer.finish, finish, hplace]
    cases hreq : (s.call t).request with
    | none =>
      refine ⟨server_eq rfl rfl rfl rfl rfl (fun x => ?_) rfl rfl, hus⟩
      rcases eq_or_ne x t with rfl | hx
      · exact hplace.trans (if_neg hst).symm
      · exact place_congr rfl rfl (hne x hx)
    | some req =>
      refine ⟨server_eq rfl rfl rfl rfl rfl (update_place ?_ fun x hx => ?_) rfl rfl, ?_⟩
      · simp [place, foreign, hidle, hback, Host.Place.task]
      · exact place_congr (update_of_ne hx ..) rfl (hne x hx)
      · rw [List.filterMap_append, List.filterMap_append, hus]
        rfl

theorem lockResult_returned (h : Host) (t : ℕ) :
    ∀ e ∈ h.lockResult t, ∃ t task err, e = .returned t task err := by
  intro e he
  unfold Host.lockResult at he
  split at he
  · exact ⟨_, _, _, List.mem_singleton.mp he⟩
  · cases he

theorem run_lock (hG : Lenient G) (hi : s.Inv) (hc : s.crashed = false)
    (ht : s.host.threads.step (.lock t) = some (th, les)) :
    ∃ us, TcpServer.serving.Run G s.server us (s.goOn (.lock t)
        ({ s with host := { s.host with threads := th } },
          (les.map Host.Event.loop ++ s.host.lockResult t).map .host)).1.server ∧
      us.filterMap unreturned = (s.goOn (.lock t)
        ({ s with host := { s.host with threads := th } },
          (les.map Host.Event.loop ++ s.host.lockResult t).map .host)).2.filterMap
            Event.served := by
  have hcr : ¬ s.server.crashed = true := by simp [server, hc]
  have hloop : s.server.loopStep (.lock t) = _ := server_loopStep ht
  obtain ⟨hst, hus⟩ := finish_server (if s.host.threads.loop.dAsync = [] then .busy else .noErr)
    hi ht (served_returned les (lockResult_returned s.host t)).symm
  refine seen_step (d := .lock t) (hG.lock _ t) ?_ hst hus
  rw [TcpServer.step, if_neg hcr]
  exact congrArg (Option.map _) hloop

/-! ## The loop thread -/

theorem body_of_turn {d : Turn} (hi : s.Inv) (ht : s.host.threads.step (.turn d) = some (th, les))
    (hb : ¬ (d = .tcbReturn ∧ s.host.body.isSome)) : s.host.body = none := by
  by_contra hne
  obtain ⟨h, hp⟩ := hi.seated hne
  obtain ⟨-, hturn⟩ := Threads.turn_cases ht
  exact hb ⟨turn_of_running hturn hp, Option.isSome_iff_ne_none.mpr hne⟩

theorem run_turn {d : Turn} (hG : Lenient G) (hi : s.Inv) (hc : s.crashed = false)
    (hb : ¬ (d = .tcbReturn ∧ s.host.body.isSome))
    (ht : s.host.threads.step (.turn d) = some (th, les)) :
    ∃ us, TcpServer.serving.Run G s.server us { s with host := { s.host with
        threads := th
        body := s.host.nextBody d th.loop.position } }.server ∧
      us.filterMap unreturned = ((les.map Host.Event.loop).map .host).filterMap Event.served := by
  have hbody := body_of_turn hi ht hb
  have hcr : ¬ s.server.crashed = true := by simp [server, hc]
  have hnone : s.server.body = none := by simp [server, hbody]
  have hloop : s.server.loopStep (.turn d) = _ := server_loopStep ht
  have hnext : s.server.nextBody d th.loop.position =
      (s.host.nextBody d th.loop.position).map serves := by
    cases d with
    | fire h => cases th.loop.position <;> rfl
    | _ => simp [TcpServer.nextBody, Host.nextBody, hbody]
  have hstep : s.server.step (.turn d) = some ({ s.server with
      threads := th.map serves
      body := s.server.nextBody d th.loop.position },
      (les.map (Uvloop.Event.map serves)).map .loop) := by
    rw [TcpServer.step, if_neg hcr]
    simp only [if_pos hnone, hloop]
    rfl
  refine seen_step (hG.turn _ d) hstep ?_ (served_loop les)
  refine server_eq rfl rfl rfl rfl rfl (fun x => ?_) hnext rfl
  exact place_congr rfl rfl (congrFun (Threads.turn_cases ht).1 x)

theorem run_perform (hG : Lenient G) (hc : s.crashed = false) (hbody : s.host.body = some task)
    (hne : task ≠ listenTask) (err : ℤ) :
    ∃ us, TcpServer.serving.Run G s.server us
        { s with host := ({ s.host with body := none }.perform task err).1 }.server ∧
      us.filterMap unreturned =
        (({ s.host with body := none }.perform task err).2.map Event.host).filterMap
          Event.served := by
  obtain ⟨hcall, hth, hb⟩ := Host.perform_call { s.host with body := none } task err
  have hcr : ¬ s.server.crashed = true := by simp [server, hc]
  have hsome : s.server.body = some (.other task.eType (number task)) := by
    simp [server, hbody, serves_of_ne hne]
  have hstep : s.server.step (.perform 0 0 0) = some ({ s.server with body := none }, []) := by
    rw [TcpServer.step, if_neg hcr]
    simp only [hsome]
    rfl
  refine seen_step (hG.perform _) hstep ?_ ?_
  · refine server_eq ?_ rfl rfl rfl rfl (fun x => ?_) ?_ rfl
    · rw [hth]
      rfl
    · exact place_congr rfl (congrFun hcall x) (by rw [hth])
    · rw [hb]
      rfl
  · cases task with
    | conn i req => exact (served_conn i _).symm
    | other => rfl

theorem run_host (hG : Lenient G) (hi : s.Inv) (hc : s.crashed = false) (hb : s.Apart b)
    (hs : s.host.step w b = some (host, fs)) :
    ∃ us, TcpServer.serving.Run G s.server us (s.goOn b ({ s with host }, fs.map .host)).1.server ∧
      us.filterMap unreturned =
        (s.goOn b ({ s with host }, fs.map .host)).2.filterMap Event.served := by
  cases (Host.step_cases hs).2 with
  | conn i c u gs ho he hu =>
    obtain ⟨us, hrun, hus⟩ := run_conn hG hi hc hb (Host.own_of_step ho hu) he gs
    exact ⟨us, hrun, hus.trans (served_conn i gs).symm⟩
  | closeCb i h =>
    obtain ⟨n, hn⟩ := hi.spare
    obtain ⟨m, hm⟩ := hi.host.spare
    exact run_closed hG hc (t := max n m) ⟨hn _ (le_max_left ..), hm _ (le_max_right ..)⟩ i h
  | loop a d c th les hl ht => exact run_loop hG hi hc hb hl ht
  | request t e id hidle =>
    exact run_moved hG hc hb.1 (server_idle ⟨hb.1, hidle⟩) rfl rfl rfl
  | addReqFault t i => exact unseen rfl (served_conn i [.fault])
  | addReq t task th les htask _ ht => exact run_addReq hG hi hc htask ht
  | lock t th les ht => exact run_lock hG hi hc ht
  | turn d th les ht hd => exact run_turn hG hi hc hd ht
  | perform task err hbody => exact run_perform hG hc hbody (fun he => hb (he ▸ hbody)) err

/-! ## Steps of the server -/

/-- What the server does by itself is not seen, but for the end of the program. It does not change
the loop, and the thread that does it is then in one of its functions. -/
structure OwnStep (b : TcpServer.Act) (v u : TcpServer) (us : List TcpServer.Event) : Prop where
  threads : u.threads = v.threads
  body : u.body = v.body
  events : us = [] ∨ us = [.fault]
  others : ∀ t, caller b ≠ some t → u.call t = v.call t
  inside : ∀ t, caller b = some t → u.call t ≠ .idle

theorem OwnStep.of_update {b : TcpServer.Act} {v : TcpServer} {t : ℕ} {c : TcpServer.Caller}
    (hb : caller b = some t) (hc : c ≠ .idle) (ht : u.threads = v.threads) (hbody : u.body = v.body)
    (hcall : u.call = update v.call t c) : OwnStep b v u [] := by
  refine ⟨ht, hbody, .inl rfl, fun x hx => ?_, fun x hx => ?_⟩
  · have hxt : x ≠ t := fun he => hx (he ▸ hb)
    rw [hcall, update_of_ne hxt]
  · obtain rfl : t = x := Option.some.inj (hb.symm.trans hx)
    rwa [hcall, update_self]

theorem ownStep {b : TcpServer.Act} {v : TcpServer} (ho : owned b = true)
    (hs : v.step b = some (u, us)) : OwnStep b v u us := by
  obtain ⟨-, hs⟩ := Option.ite_none_left_eq_some.mp hs
  cases b with
  | registerAccept | setNewConnectCallback =>
    obtain ⟨rfl, rfl⟩ := Prod.mk.inj (Option.some.inj hs)
    exact ⟨rfl, rfl, .inl rfl, fun _ _ => rfl, fun _ h => by cases h⟩
  | setIPAndPort =>
    dsimp only at hs
    split at hs
    · obtain ⟨rfl, rfl⟩ := Prod.mk.inj (Option.some.inj hs)
      exact ⟨rfl, rfl, .inl rfl, fun _ _ => rfl, fun _ h => by cases h⟩
    · obtain ⟨rfl, rfl⟩ := Prod.mk.inj (Option.some.inj hs)
      exact ⟨rfl, rfl, .inr rfl, fun _ _ => rfl, fun _ h => by cases h⟩
  | request t f =>
    obtain ⟨-, hs⟩ := Option.ite_none_right_eq_some.mp hs
    obtain ⟨rfl, rfl⟩ := Prod.mk.inj (Option.some.inj hs)
    refine .of_update (t := t) rfl ?_ rfl rfl rfl
    cases f with
    | tcpListen ip port cb =>
      dsimp only [TcpServer.begin]
      split <;> simp
    | listen => simp [TcpServer.begin]
    | other => cases ho
  | configure t iErr =>
    change v.configure t iErr = _ at hs
    unfold TcpServer.configure at hs
    split at hs
    · obtain ⟨rfl, rfl⟩ := Prod.mk.inj (Option.some.inj hs)
      exact .of_update (t := t) rfl (by simp) rfl rfl rfl
    · obtain ⟨rfl, rfl⟩ := Prod.mk.inj (Option.some.inj hs)
      exact .of_update (t := t) rfl (by simp) rfl rfl rfl
    · next port cb hc =>
      split at hs
      · obtain ⟨rfl, rfl⟩ := Prod.mk.inj (Option.some.inj hs)
        exact .of_update (t := t) rfl (by simp) rfl rfl rfl
      · obtain ⟨rfl, rfl⟩ := Prod.mk.inj (Option.some.inj hs)
        refine ⟨rfl, rfl, .inr rfl, fun _ _ => rfl, fun x hx => ?_⟩
        obtain rfl : t = x := Option.some.inj hx
        simp [hc]
    · obtain ⟨rfl, rfl⟩ := Prod.mk.inj (Option.some.inj hs)
      exact .of_update (t := t) rfl (by simp) rfl rfl rfl
    · contradiction
  | run | setRunning | stop | addReq | lock | turn | perform | connectionCb => cases ho

theorem run_server {d : TcpServer.Act} (hG : G s.server d) (ho : owned d = true)
    (hs : s.server.step d = some (v, us)) :
    ∃ us', TcpServer.serving.Run G s.server us' (s.put (caller d) (v, us)).1.server ∧
      us'.filterMap unreturned = (us.map Event.server).filterMap Event.served := by
  have hown := ownStep ho hs
  refine seen_step hG hs ?_ (served_server us).symm
  refine server_eq hown.threads rfl rfl rfl rfl (fun x => ?_) hown.body rfl
  cases hd : caller d with
  | none => exact hown.others x (by simp [hd])
  | some t =>
    rcases eq_or_ne x t with rfl | hx
    · have hne := hown.inside x hd
      simp [place, put, hne]
    · have hne : caller d ≠ some x := by simpa [hd] using hx.symm
      refine (hown.others x hne).trans ?_
      exact place_congr (update_of_ne hx ..) rfl rfl

theorem run_started {ip : String} {port : ℕ} {cb : Option ℕ} (hG : Lenient G)
    (hc : s.crashed = false) (hcall : s.call t = .starting ip port cb)
    (hr : s.host.threads.loop.bRunning = true) :
    ∃ us, TcpServer.serving.Run G s.server us
      { s with call := update s.call t (.storing ip port cb) }.server ∧
      us.filterMap unreturned = [] := by
  have hcr : ¬ s.server.crashed = true := by simp [server, hc]
  have hplace : s.server.call t = .starting ip port cb :=
    (place_of_ne (by simp [hcall])).trans hcall
  have hr' : s.server.threads.loop.bRunning = true := hr
  have hstep : s.server.step (.run t) =
      some ({ s.server with call := update s.server.call t (.storing ip port cb) }, []) := by
    rw [TcpServer.step, if_neg hcr]
    simp only [TcpServer.launch, hplace, if_pos hr']
  refine seen_step (hG.run _ t) hstep ?_ (served_server []).symm
  refine server_eq rfl rfl rfl rfl rfl (update_place ?_ fun x hx => ?_) rfl rfl
  · simp [place]
  · exact place_congr (update_of_ne hx ..) rfl rfl

theorem run_launch {ip : String} {port : ℕ} {cb : Option ℕ} (hG : Lenient G)
    (hc : s.crashed = false) (hcall : s.call t = .starting ip port cb)
    (hr : s.host.threads.loop.bRunning = false) (hs : s.host.step w (.run t) = some (host, fs)) :
    ∃ us, TcpServer.serving.Run G s.server us
      { s with host, call := update s.call t (.launched ip port cb) }.server ∧
      us.filterMap unreturned = (fs.map Event.host).filterMap Event.served := by
  cases (Host.step_cases hs).2 with
  | loop _ d c th les hl ht =>
    cases hl with
    | run _ hidle =>
      have hcr : ¬ s.server.crashed = true := by simp [server, hc]
      have hplace : s.server.call t = .starting ip port cb :=
        (place_of_ne (by simp [hcall])).trans hcall
      have hr' : ¬ s.server.threads.loop.bRunning = true := fun h => by cases hr.symm.trans h
      have hloop : s.server.loopStep (.run t) = _ := server_loopStep ht
      have hstep : s.server.step (.run t) = some ({ s.server with
          threads := th.map serves
          call := update s.server.call t (.launched ip port cb) },
          (les.map (Uvloop.Event.map serves)).map .loop) := by
        rw [TcpServer.step, if_neg hcr]
        simp only [TcpServer.launch, hplace, if_neg hr', hloop]
        rfl
      refine seen_step (hG.run _ t) hstep ?_ (served_loop les)
      refine server_eq rfl rfl rfl rfl rfl (update_place ?_ fun x hx => ?_) rfl rfl
      · simp [place]
      · have hne : (Uvloop.Act.run t : Uvloop.Act Host.Task).thread ≠ some x := by
          simpa [Uvloop.Act.thread] using hx.symm
        exact place_congr (update_of_ne hx ..) rfl (Threads.call_of_ne ht hne)

theorem run_listenReq (hG : Lenient G) (hi : s.Inv) (hc : s.crashed = false)
    (hreq : (s.call t).request = some .serverListenStart) (hp : s.listner.ploop = true)
    (hs : { s.host with call := update s.host.call t (.other .tcpListen 0) }.step w (.addReq t) =
      some (host, fs)) (c : ℕ → TcpServer.Caller) (gs : List Event)
    (hrun : s.host.threads.loop.bRunning = true → c = s.call ∧ gs = [])
    (hstop : s.host.threads.loop.bRunning = false → c = update s.call t .idle ∧
      gs = [.server (.returned t ((s.call t).result .stop))]) :
    ∃ us, TcpServer.serving.Run G s.server us { s with host, call := c }.server ∧
      us.filterMap unreturned = (fs.map Event.host ++ gs).filterMap Event.served := by
  have hne : s.call t ≠ .idle := fun h => by
    rw [h] at hreq
    cases hreq
  have hidle := hi.apart t hne
  obtain ⟨th, les, ht, rfl, rfl⟩ := listen_cases hidle hs
  have hplace : s.server.call t = s.call t := place_of_ne hne
  have hloop : s.server.loopStep (.call t (.addReq .tcpListen (some .serverListenStart))) = _ :=
    server_loopStep ht
  have hstep := step_addReq hc (hplace ▸ hreq) (fun _ => hp) hloop
  have hothers : ∀ x ≠ t, th.call x = s.host.threads.call x := fun x hx =>
    Threads.call_of_ne ht (by simpa [Uvloop.Act.thread] using hx.symm)
  cases hr : s.host.threads.loop.bRunning with
  | true =>
    obtain ⟨rfl, rfl⟩ := hrun hr
    rw [if_pos hr] at hstep
    refine seen_step (hG.addReq _ t) hstep ?_ ?_
    · refine server_eq rfl rfl rfl rfl rfl (fun x => ?_) rfl rfl
      rcases eq_or_ne x t with rfl | hx
      · exact hplace.trans (if_neg hne).symm
      · exact place_congr rfl rfl (hothers x hx)
    · rw [List.append_nil, served_returned _ (by simp)]
  | false =>
    obtain ⟨rfl, rfl⟩ := hstop hr
    rw [if_neg (by simp [hr]), TcpServer.finish, hplace, hreq] at hstep
    refine seen_step (hG.addReq _ t) hstep ?_ ?_
    · refine server_eq rfl rfl rfl rfl rfl (update_place ?_ fun x hx => ?_) rfl rfl
      · have hback : th.call t = .idle := by
          cases Threads.step_cases ht with
          | called _ _ _ hr' => cases hr.symm.trans hr'
          | refused _ _ hback => exact hback
        simp [place, foreign, hidle, hback, Host.Place.task]
      · exact place_congr (update_of_ne hx ..) rfl (hothers x hx)
    · rw [List.filterMap_append, List.filterMap_append, served_returned _ (by simp)]
      rfl

theorem serverListenStart_body (v : TcpServer) (ini bnd lis : ℤ) :
    { v with body := none }.serverListenStart ini bnd lis =
      ({ (v.serverListenStart ini bnd lis).1 with body := none },
        (v.serverListenStart ini bnd lis).2) := by
  unfold TcpServer.serverListenStart
  dsimp only
  split
  · rfl
  · split <;> rfl

theorem serverListenStart_call (v : TcpServer) (ini bnd lis : ℤ) :
    (v.serverListenStart ini bnd lis).1.threads = v.threads ∧
      (v.serverListenStart ini bnd lis).1.call = v.call := by
  unfold TcpServer.serverListenStart
  dsimp only
  split
  · exact ⟨rfl, rfl⟩
  · split <;> exact ⟨rfl, rfl⟩

theorem run_serverListenStart {ini bnd lis : ℤ} (hG : G s.server (.perform ini bnd lis))
    (hc : s.crashed = false) (hb : s.host.body = some listenTask) :
    ∃ us, TcpServer.serving.Run G s.server us
      ({ s with host := { s.host with body := none } }.put none
        (s.server.serverListenStart ini bnd lis)).1.server ∧
      us.filterMap unreturned =
        ((s.server.serverListenStart ini bnd lis).2.map Event.server).filterMap Event.served := by
  obtain ⟨hth, hcall⟩ := serverListenStart_call s.server ini bnd lis
  have hcr : ¬ s.server.crashed = true := by simp [server, hc]
  have hbody : s.server.body = some .serverListenStart := by
    change s.host.body.map serves = _
    rw [hb]
    rfl
  have hstep : s.server.step (.perform ini bnd lis) =
      some ({ s.server with body := none }.serverListenStart ini bnd lis) := by
    rw [TcpServer.step, if_neg hcr]
    simp only [hbody]
    rfl
  rw [serverListenStart_body] at hstep
  refine seen_step hG hstep ?_ (served_server _).symm
  exact server_eq hth rfl rfl rfl rfl (fun x => congrFun hcall x) rfl rfl

theorem step_connectionCb {h : ℕ} (hc : s.crashed = false)
    (hp : s.host.threads.loop.position = .polling) (hl : s.listens h = true)
    (status ini acc : ℤ) :
    s.server.step (.connectionCb h status ini acc) = some (s.server.connected status ini acc) := by
  have hcr : ¬ s.server.crashed = true := by simp [server, hc]
  rw [TcpServer.step, if_neg hcr]
  exact if_pos ⟨hp, hl⟩

theorem run_made {h : ℕ} {status : ℤ} (es : List TcpServer.Event)
    (hg : G s.server (.connectionCb h status 0 0))
    (hs : s.host.step w (.conn s.made .registerloopAndStream) = some (host, fs)) (crashed : Bool)
    (hstep : s.server.step (.connectionCb h status 0 0) =
      some ({ s.server with tcps := s.tcps + 1, crashed }, [.tcpInit s.tcps] ++ es)) :
    ∃ us, TcpServer.serving.Run G s.server us
      { s with host, tcps := s.tcps + 1, made := s.made + 1, crashed }.server ∧
      us.filterMap unreturned = (Event.server (.tcpInit s.tcps) :: Event.accepted s.made s.tcps ::
        fs.map Event.host ++ es.map Event.server).filterMap Event.served := by
  cases (Host.step_cases hs).2 with
  | conn i b u gs =>
    refine seen_step hg hstep rfl ?_
    have hmade : (Event.server (.tcpInit s.tcps) :: Event.accepted s.made s.tcps ::
        (gs.map (Host.Event.conn s.made)).map Event.host).filterMap Event.served =
        [.tcpInit s.tcps] := congrArg (TcpServer.Event.tcpInit s.tcps :: ·) (served_conn _ gs)
    rw [List.filterMap_append, List.filterMap_append, hmade, served_server]
    rfl
  | loop _ _ _ _ _ hl => cases hl

/-- Every step is a run of the server. -/
theorem matches_server (hG : Lenient G) (w : ℕ) :
    (service w).Matches TcpServer.serving (serverAdmits G) G Inv Service.server Event.served
      unreturned := by
  intro s a s' es hi hg hs
  refine ⟨hi.step hs, ?_⟩
  obtain ⟨hc, -, hcases⟩ := step_cases hs
  cases hcases with
  | host b host fs hb hh => exact run_host hG hi hc hb hh
  | server b u us ho _ hu => exact run_server hg ho hu
  | started t ip port cb hcall hr => exact run_started hG hc hcall hr
  | launch t ip port cb host fs hcall hr hh => exact run_launch hG hc hcall hr hh
  | addReqFault t hreq hp =>
    have hne : s.call t ≠ .idle := fun h => by
      rw [h] at hreq
      cases hreq
    have hreq' : (s.server.call t).request = some .serverListenStart := by
      rw [show s.server.call t = s.call t from place_of_ne hne, hreq]
    have hcr : ¬ s.server.crashed = true := by simp [server, hc]
    have hstep : s.server.step (.addReq t) = some (s.server.crash [.fault]) := by
      rw [TcpServer.step, if_neg hcr]
      simp only [hreq']
      exact if_pos ⟨trivial, hp⟩
    exact seen_step (hG.addReq _ t) hstep rfl rfl
  | addReq t host fs hreq hp hr hh =>
    have hrun := run_listenReq hG hi hc hreq hp hh s.call [] (fun _ => ⟨rfl, rfl⟩)
      fun h => by cases h.symm.trans hr
    rwa [List.append_nil] at hrun
  | addReqStop t host fs hreq hp hr hh =>
    exact run_listenReq hG hi hc hreq hp hh _ _ (fun h => by cases h.symm.trans hr)
      fun _ => ⟨rfl, rfl⟩
  | serverListenStart ini bnd lis hb => exact run_serverListenStart hg hc hb
  | ignored h status ini acc hp hl hst =>
    have hstep := step_connectionCb hc hp hl status ini acc
    rw [TcpServer.connected, if_pos hst] at hstep
    exact seen_step hg hstep rfl rfl
  | initFault h status ini acc hp hl hst hini =>
    have hstep := step_connectionCb hc hp hl status ini acc
    rw [TcpServer.connected, if_neg (not_lt.mpr hst)] at hstep
    simp only [if_pos hini] at hstep
    exact seen_step hg hstep rfl rfl
  | refused h status acc hp hl hst hacc =>
    have hstep := step_connectionCb hc hp hl status 0 acc
    rw [TcpServer.connected, if_neg (not_lt.mpr hst)] at hstep
    simp only [ne_eq, not_true_eq_false, if_false, if_pos hacc] at hstep
    exact seen_step hg hstep rfl rfl
  | unwanted h status host fs hp hl hst hcb hh =>
    have hstep := step_connectionCb hc hp hl status 0 0
    have hnone : s.server.listner.connectcb = none := hcb
    rw [TcpServer.connected, if_neg (not_lt.mpr hst)] at hstep
    simp only [ne_eq, not_true_eq_false, if_false, hnone] at hstep
    exact run_made [.fault] hg hh true hstep
  | accepted h status cb host fs hp hl hst hcb hh =>
    have hstep := step_connectionCb hc hp hl status 0 0
    have hsome : s.server.listner.connectcb = some cb := hcb
    rw [TcpServer.connected, if_neg (not_lt.mpr hst)] at hstep
    simp only [ne_eq, not_true_eq_false, if_false, hsome] at hstep
    exact run_made [.newConnection cb s.tcps] hg hh s.crashed hstep

/-- The history of the server among its connections is one of a server alone. -/
theorem server_of_service (hG : Lenient G) (h : (service w).Reach (serverAdmits G) tr s) :
    ∃ us, TcpServer.serving.Reach G us s.server ∧
      us.filterMap unreturned = tr.filterMap Event.served := by
  refine ((matches_server hG w).reach ?_ h).2
  rintro s ⟨made, garbage, send, rfl⟩
  refine ⟨create_inv made garbage send, garbage, ?_⟩
  rfl

/-! ## The hand-over -/

def Event.stream : Event → Option ℕ
  | .accepted _ h => some h
  | _ => none

def Event.given : Event → Option ℕ
  | .server (.newConnection _ h) => some h
  | _ => none

def Event.isAside : Event → Bool
  | .accepted _ _ | .server (.newConnection _ _) => false
  | _ => true

theorem isAside_host (fs : List Host.Event) : ∀ e ∈ fs.map Event.host, e.isAside = true := by
  intro e he
  obtain ⟨f, -, rfl⟩ := List.mem_map.mp he
  rfl

theorem goOn_aside (s : Service) (b : Host.Act) (host : Host) (fs : List Host.Event) :
    ∀ e ∈ (s.goOn b ({ s with host }, fs.map .host)).2, e.isAside = true := by
  cases b with
  | lock t =>
    simp only [goOn, finish]
    split
    · intro e he
      rcases List.mem_append.mp he with he | he
      · exact isAside_host fs e he
      · obtain rfl := List.mem_singleton.mp he
        rfl
    · exact isAside_host fs
  | conn | closeCb | run | setRunning | stop | request | addReq | turn | perform =>
    exact isAside_host fs

theorem serverListenStart_aside (v : TcpServer) (ini bnd lis : ℤ) :
    ∀ e ∈ (v.serverListenStart ini bnd lis).2, (Event.server e).isAside = true := by
  have hfreed : ∀ e ∈ (v.listner.server.map TcpServer.Event.freed).toList,
      (Event.server e).isAside = true := by
    intro e he
    obtain ⟨h, -, rfl⟩ := Option.map_eq_some_iff.mp (Option.mem_toList.mp he)
    rfl
  unfold TcpServer.serverListenStart
  dsimp only
  split
  · rw [List.append_assoc]
    exact List.forall_mem_append.mpr ⟨hfreed, by simp [Event.isAside]⟩
  · split <;> rw [List.append_assoc] <;>
      exact List.forall_mem_append.mpr ⟨hfreed, by simp [Event.isAside]⟩

theorem given_of_step (hs : s.step w a = some (s', es)) :
    s'.crashed = true ∨ es.filterMap Event.given = es.filterMap Event.stream := by
  have haside : (∀ e ∈ es, e.isAside = true) →
      s'.crashed = true ∨ es.filterMap Event.given = es.filterMap Event.stream := by
    intro he
    right
    apply List.filterMap_congr
    intro e hm
    have ha := he e hm
    cases e with
    | accepted => cases ha
    | host => rfl
    | server e => cases e <;> first | rfl | cases ha
  cases (step_cases hs).2.2 with
  | host b host fs => exact haside (goOn_aside s b host fs)
  | server b u us ho _ hu =>
    refine haside ?_
    rcases (ownStep ho hu).events with rfl | rfl <;> simp [Event.isAside]
  | launch t ip port cb host fs | addReq t host fs => exact haside (isAside_host fs)
  | addReqStop t host fs =>
    refine haside fun e he => ?_
    rcases List.mem_append.mp he with he | he
    · exact isAside_host fs e he
    · obtain rfl := List.mem_singleton.mp he
      rfl
  | serverListenStart ini bnd lis =>
    refine haside fun e he => ?_
    obtain ⟨f, hf, rfl⟩ := List.mem_map.mp he
    exact serverListenStart_aside _ _ _ _ f hf
  | started | addReqFault | ignored | initFault | refused => exact haside (by simp [Event.isAside])
  | unwanted => exact .inl rfl
  | accepted h status cb host fs =>
    have hnil : ∀ f : Event → Option ℕ, (∀ e, f (.host e) = none) →
        (fs.map Event.host).filterMap f = [] := by
      intro f hf
      rw [List.filterMap_map]
      exact List.filterMap_eq_nil_iff.mpr fun e _ => hf e
    right
    calc (Event.server (.tcpInit s.tcps) :: Event.accepted s.made s.tcps :: fs.map Event.host ++
          [Event.server (.newConnection cb s.tcps)]).filterMap Event.given
        = (fs.map Event.host).filterMap Event.given ++ [s.tcps] := by
          rw [List.filterMap_append]
          rfl
      _ = s.tcps :: (fs.map Event.host).filterMap Event.stream ++ [] := by
          rw [hnil Event.given fun _ => rfl, hnil Event.stream fun _ => rfl]
          rfl
      _ = _ := by
          rw [List.filterMap_append]
          rfl

/-! ## Histories -/

section Users

variable {P : String → Prop} {Q C : ℕ → Prop}

theorem lenient_users : Lenient (TcpServer.users P Q C) where
  request _ _ _ _ := trivial
  addReq _ _ := trivial
  lock _ _ := trivial
  run _ _ := trivial
  setRunning _ _ := trivial
  stop _ _ := trivial
  turn _ _ := trivial
  perform _ := ⟨rfl, rfl⟩

theorem eq_of_unreturned {e e' : TcpServer.Event} (h : unreturned e = some e') : e = e' := by
  cases e with
  | returned => cases h
  | _ => exact Option.some.inj h

theorem filterMap_unreturned {β : Type} {f : TcpServer.Event → Option β}
    (hf : ∀ t ok, f (.returned t ok) = none) (us : List TcpServer.Event) :
    (us.filterMap unreturned).filterMap f = us.filterMap f := by
  rw [List.filterMap_filterMap]
  congr 1
  ext e : 1
  cases e with
  | returned t ok => exact (hf t ok).symm
  | _ => rfl

theorem handles_unreturned (h : TcpServer.Handles us v) :
    TcpServer.Handles (us.filterMap unreturned) v := by
  constructor
  case served =>
    rw [filterMap_unreturned fun _ _ => rfl, filterMap_unreturned fun _ _ => rfl]
    exact h.served
  case inited =>
    rw [filterMap_unreturned fun _ _ => rfl]
    exact h.inited
  case fresh =>
    rw [filterMap_unreturned fun _ _ => rfl]
    exact h.fresh
  case freed =>
    rw [filterMap_unreturned fun _ _ => rfl, filterMap_unreturned fun _ _ => rfl]
    exact h.freed
  case last =>
    rw [filterMap_unreturned fun _ _ => rfl]
    exact h.last
  case listens =>
    rw [filterMap_unreturned fun _ _ => rfl]
    exact h.listens

structure Attends (P : String → Prop) (Q C : ℕ → Prop) (tr : List Event) (s : Service) :
    Prop where
  /-- The program does not end in the code of the server. -/
  sound : s.crashed = false ∧ .server .fault ∉ tr
  /-- Requests to listen and tcp handles are as with a server alone. -/
  handles : TcpServer.Handles (tr.filterMap Event.served) s.server
  bound : ∀ h addr, .server (.tcpBind h addr) ∈ tr → TcpServer.Located P Q addr
  /-- Each connection that is made is handed over, to a callback that has been brought. -/
  given : tr.filterMap Event.given = tr.filterMap Event.stream
  handed : ∀ cb h, .server (.newConnection cb h) ∈ tr → C cb

/-- Every history of a server used through `tcpListen`, whatever happens on the connections. -/
theorem attends_of_reach (h : (service w).Reach (serverAdmits (TcpServer.users P Q C)) tr s) :
    Attends P Q C tr s := by
  obtain ⟨us, hr, hus⟩ := server_of_service lenient_users h
  have hallowed : ∀ e, .server e ∈ tr → unreturned e = some e → TcpServer.Allowed P Q C e := by
    intro e he hun
    have hmem : e ∈ us.filterMap unreturned := hus ▸ List.mem_filterMap.mpr ⟨_, he, hun⟩
    obtain ⟨e', he', hun'⟩ := List.mem_filterMap.mp hmem
    obtain rfl := eq_of_unreturned hun'
    exact TcpServer.allowed_of_reach hr e' he'
  have hcrash : s.crashed = false := (TcpServer.inv_of_reach hr).crashed
  constructor
  case sound => exact ⟨hcrash, fun he => hallowed _ he rfl⟩
  case handles =>
    rw [← hus]
    exact handles_unreturned (TcpServer.handles_of_reach hr)
  case bound => exact fun h addr he => hallowed _ he rfl
  case given =>
    refine (h.invariant (I := fun tr s => s.crashed = true ∨
      tr.filterMap Event.given = tr.filterMap Event.stream)
      (fun _ _ => .inr rfl) ?_).resolve_left ?_
    · intro tr s a s' es _ hi _ hs
      have hgiven := hi.resolve_left (by simp [(step_cases hs).1])
      rw [List.filterMap_append, List.filterMap_append, hgiven]
      exact (given_of_step hs).imp_right fun he => by rw [he]
    · simp [hcrash]
  case handed => exact fun cb h he => hallowed _ he rfl

/-- Of two connections the first is closed by its peer, and a second `tcpListen` frees the handle
on which a third one then comes in. -/
theorem attends_of_reach_example : ∃ tr s,
    (service 64).Reach (serverAdmits (TcpServer.users (· = "0.0.0.0") (· = 7) (· = 3))) tr s ∧
      [.server (.newConnection 3 1), .server (.newConnection 3 2),
        .host (.conn 0 (.event .close 0)), .server (.freed 0),
        .server (.newConnection 3 4)].Sublist tr ∧
      Attends (· = "0.0.0.0") (· = 7) (· = 3) tr s := by
  obtain ⟨tr, s, hr, hp⟩ := System.exists_run_of_exec (M := service 64)
    (G := serverAdmits (TcpServer.users (· = "0.0.0.0") (· = 7) (· = 3)))
    (s := create 0 (fun _ => .loopStop) fun _ _ => ⟨⟨none, 0, 0, 0⟩, ⟨none, 0⟩⟩)
    ([.host (.run 1), .host (.setRunning 1)] ++
      [.server (.request 1 (.tcpListen "0.0.0.0" 7 (some 3))), .server (.configure 1 0),
        .server (.configure 1 0), .server (.configure 1 0), .server (.configure 1 0), .addReq 1,
        .host (.lock 1), .host (.turn (.fire 0)), .serverListenStart 0 0 0,
        .host (.turn .tcbReturn), .host (.turn .recycle), .connectionCb 0 0 0 0,
        .connectionCb 0 0 0 0, .host (.conn 0 (.setEventHandler true)),
        .host (.conn 0 (.request 4 .startReadData)), .host (.addReq 4), .host (.lock 4),
        .host (.turn (.fire 1)), .host (.perform 0), .host (.turn .tcbReturn),
        .host (.turn .recycle), .host (.conn 0 (.readCb 0 (-1)))] ++
      [.server (.request 2 (.tcpListen "0.0.0.0" 7 (some 3))), .server (.configure 2 0),
        .server (.configure 2 0), .server (.configure 2 0), .server (.configure 2 0), .addReq 2,
        .host (.lock 2), .host (.turn (.fire 2)), .serverListenStart 0 0 0,
        .host (.turn .tcbReturn), .host (.turn .recycle), .connectionCb 0 0 0 0])
    (p := fun _ tr => decide ([.server (.newConnection 3 1), .server (.newConnection 3 2),
      .host (.conn 0 (.event .close 0)), .server (.freed 0),
      .server (.newConnection 3 4)].Sublist tr)) (by decide +kernel)
  have h : (service 64).Reach _ tr s := ⟨_, ⟨_, _, _, rfl⟩, hr⟩
  exact ⟨tr, s, h, of_decide_eq_true hp, attends_of_reach h⟩

end Users

end UvWrapper.Service
