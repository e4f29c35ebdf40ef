import UvWrapper.Service.Connections

/-! # The connections that a server has accepted

A connection that the acceptor has made and that is not made to dial has no other stream in its
life, and once it is closed it stays so, however many others there are.
-/

namespace UvWrapper.Service

open Function Transition Uvloop

variable {w i : ℕ} {s s' : Service} {a : Act} {es tr : List Event}

def opensStream : Uvconnect.Act → Bool
  | .registerloopAndStream | .request _ .connectToServer | .request _ .reconnnect => true
  | _ => false

/-- Only the acceptor gives the connection `i` a stream. -/
def leftToServer (i : ℕ) (_ : Service) : Act → Prop
  | .host (.conn j b) => j = i → opensStream b = false
  | _ => True

instance (i : ℕ) : DecidableRel (leftToServer i) := fun _ a =>
  match a with
  | .host (.conn j b) => inferInstanceAs (Decidable (j = i → opensStream b = false))
  | .host (.closeCb _ _) | .host (.run _) | .host (.setRunning _) | .host (.stop _)
  | .host (.request _ _ _) | .host (.addReq _) | .host (.lock _) | .host (.turn _)
  | .host (.perform _) | .server _ | .launch _ | .addReq _ | .serverListenStart _ _ _
  | .connectionCb _ _ _ _ => .isTrue trivial

theorem open_serverSide : Open Uvconnect.serverSide where
  request _ _ _ _ _ := trivial
  addReq _ _ := trivial
  lock _ _ := trivial
  run _ _ := trivial
  perform _ _ := trivial

theorem Fresh.serverSide (hf : s.Fresh) (hg : leftToServer i s a) :
    admits Uvconnect.serverSide i s a := by
  cases a with
  | host b =>
    cases b with
    | conn j c =>
      intro hj
      have hc := hg hj
      cases c with
      | registerloopAndStream => cases hc
      | request t f =>
        cases f with
        | connectToServer | reconnnect => cases hc
        | closeConnection | startReadData | stopReadData | other => trivial
      | _ => trivial
    | closeCb => exact fun _ => trivial
    | run | setRunning | stop | request | addReq | lock | turn | perform => trivial
  | connectionCb h status ini acc =>
    rintro ⟨-, -, -, rfl⟩
    obtain ⟨garbage, send, hfresh⟩ := (hf s.made le_rfl).fresh
    exact congrArg Host.Member.tcps hfresh
  | server | launch | addReq | serverListenStart => trivial

/-- Every step is a run of the loop on which the connection `i` is one that was accepted. -/
theorem matches_accepted (w i : ℕ) : (service w).Matches (Host.hosting w) (leftToServer i)
    (Host.admits Uvconnect.serverSide i) (fun s => s.Inv ∧ s.Fresh) Service.host Event.ofHost
      some := by
  rintro s a s' es ⟨hi, hf⟩ hg hs
  obtain ⟨hi', hrun⟩ := matches_host open_serverSide w i s a s' es hi (hf.serverSide hg) hs
  exact ⟨⟨hi', hf.step hi hs⟩, hrun⟩

def Event.ofConn (i : ℕ) (e : Event) : Option Uvconnect.Event := e.ofHost.bind (Host.Event.seen i)

/-- The history of one connection of a server is one of a connection alone that was accepted. -/
theorem connection_of_service (h : (service w).Reach (leftToServer i) tr s) :
    ∃ fs, (Uvconnect.connection w).Reach Uvconnect.serverSide fs (s.host.view i) ∧
      fs.filterMap Host.shown = tr.filterMap (Event.ofConn i) := by
  obtain ⟨-, fs, hhost, hfs⟩ := (matches_accepted w i).reach (by
    rintro s ⟨made, garbage, send, rfl⟩
    exact ⟨⟨create_inv made garbage send, fresh_create made garbage send⟩, garbage, send, rfl⟩) h
  obtain ⟨-, gs, hconn, hgs⟩ :=
    (Host.matches_view open_serverSide.toLenient w i).reach (by
      rintro s ⟨garbage, send, rfl⟩
      exact ⟨Host.create_inv garbage send, garbage, send i, rfl⟩) hhost
  rw [List.filterMap_some] at hfs
  refine ⟨gs, hconn, ?_⟩
  rw [hgs, hfs, List.filterMap_filterMap]
  rfl

/-- After `EV_CLOSE`, and once the loop has entered `CloseConnect`, the user hears neither
`EV_READ` nor another `EV_CLOSE`; after `EV_CLOSE`, and once `CloseConnect` has been executed,
`wirteData` and `StartReadData` return false. -/
structure Ended (w i : ℕ) (tr : List Event) (s : Service) : Prop where
  last : (tr.filterMap (Event.ofConn i)).Pairwise Uvconnect.Event.Precedes
  refused : (∃ e ∈ tr.filterMap (Event.ofConn i), e.isClose = true ∨
      e.isEnd = true ∧ s.host.body ≠ some (.conn i .closeConnect)) → ∀ t s' es,
    (∀ buf, s.step w (.host (.conn i (.wirteData t buf))) = some (s', es) →
      es = [.host (.conn i (.rejected t))]) ∧
    (s.step w (.host (.conn i (.request t .startReadData))) = some (s', es) →
      es = [.host (.conn i (.rejected t))])

theorem view_of_step {b : Uvconnect.Act} (hs : s.step w (.host (.conn i b)) = some (s', es)) :
    ∃ v fs, (s.host.view i).step w b = some (v, fs) ∧
      es = (fs.map (Host.Event.conn i)).map .host := by
  cases (step_cases hs).2.2 with
  | host _ host fs _ hh =>
    cases (Host.step_cases hh).2 with
    | conn _ _ v fs _ _ hv => exact ⟨v, fs, hv, rfl⟩
    | loop _ _ _ _ _ hl => cases hl

theorem seen_closeConnect {task : Host.Task} (h : task.seen i = .closeConnect) :
    task = .conn i .closeConnect := by
  cases task with
  | conn j req =>
    by_cases hj : j = i
    · subst hj
      rw [Host.Task.seen, if_pos rfl] at h
      rw [h]
    · rw [Host.Task.seen, if_neg hj] at h
      cases h
  | other => cases h

/-- Whatever the others do, the end of a connection that was accepted is final. -/
theorem ended_of_reach (h : (service w).Reach (leftToServer i) tr s) : Ended w i tr s := by
  obtain ⟨fs, hconn, hfs⟩ := connection_of_service h
  have hends := Uvconnect.ends_of_reach hconn
  constructor
  case last =>
    rw [← hfs]
    refine hends.pairwise.filterMap _ ?_
    intro e e' he f hf f' hf'
    obtain rfl := Host.eq_of_shown hf
    obtain rfl := Host.eq_of_shown hf'
    exact he
  case refused =>
    rintro ⟨e, he, hend⟩ t s' es
    rw [← hfs] at he
    obtain ⟨f, hf, hshown⟩ := List.mem_filterMap.mp he
    obtain rfl := Host.eq_of_shown hshown
    have hflag : ∀ {b v gs}, (s.host.view i).step w b = some (v, gs) →
        (s.host.view i).bConnectSuccess = false := by
      intro b v gs hv
      rcases hend with hc | ⟨hend, hbody⟩
      · exact (hends.lost ⟨_, hf, hc⟩).flag
      · rcases hends.ending ⟨_, hf, hend⟩ with ho | hb | hcr
        · exact ho.flag
        · obtain ⟨task, htask, hseen⟩ := Option.map_eq_some_iff.mp hb
          exact (hbody (by rw [htask, seen_closeConnect hseen])).elim
        · simp [Uvconnect.step, hcr] at hv
    constructor
    · intro buf hs
      obtain ⟨v, gs, hv, rfl⟩ := view_of_step hs
      rw [(Uvconnect.rejected_of_flag (hflag hv)).1 buf hv]
      rfl
    · intro hs
      obtain ⟨v, gs, hv, rfl⟩ := view_of_step hs
      rw [(Uvconnect.rejected_of_flag (hflag hv)).2 hv]
      rfl

/-- Of two connections the second is closed by its user while it reads, and then asks to read in
vain. -/
theorem ended_of_reach_example : ∃ tr s, (service 64).Reach (leftToServer 1) tr s ∧
    [.accepted 0 1, .accepted 1 2, .host (.conn 1 (.event .read 5)),
      .host (.loop (.ran 2 ⟨.tcpClose, some (.conn 1 .closeConnect)⟩)),
      .host (.conn 1 (.uvClose 0 .connected)), .host (.conn 1 (.rejected 4))].Sublist tr ∧
    Ended 64 1 tr s := by
  obtain ⟨tr, s, hr, hp⟩ := System.exists_run_of_exec (M := service 64) (G := leftToServer 1)
    (s := create 0 (fun _ => .loopStop) fun _ _ => ⟨⟨none, 0, 0, 0⟩, ⟨none, 0⟩⟩)
    [.server (.request 1 (.tcpListen "0.0.0.0" 7 (some 3))), .launch 1, .host (.setRunning 1),
      .server (.configure 1 0), .server (.configure 1 0), .server (.configure 1 0),
      .server (.configure 1 0), .addReq 1, .host (.lock 1), .host (.turn (.fire 0)),
      .serverListenStart 0 0 0, .host (.turn .tcbReturn), .host (.turn .recycle),
      .connectionCb 0 0 0 0, .connectionCb 0 0 0 0, .host (.conn 1 (.setEventHandler true)),
      .host (.conn 1 (.request 4 .startReadData)), .host (.addReq 4), .host (.lock 4),
      .host (.turn (.fire 1)), .host (.perform 0), .host (.turn .tcbReturn),
      .host (.turn .recycle), .host (.conn 1 (.readCb 0 5)),
      .host (.conn 1 (.request 4 .closeConnection)), .host (.addReq 4), .host (.lock 4),
      .host (.turn (.fire 2)), .host (.perform 0), .host (.turn .tcbReturn),
      .host (.turn .recycle), .host (.conn 1 (.request 4 .startReadData))]
    (p := fun _ tr => decide ([.accepted 0 1, .accepted 1 2, .host (.conn 1 (.event .read 5)),
      .host (.loop (.ran 2 ⟨.tcpClose, some (.conn 1 .closeConnect)⟩)),
      .host (.conn 1 (.uvClose 0 .connected)), .host (.conn 1 (.rejected 4))].Sublist tr))
    (by decide +kernel)
  have h : (service 64).Reach (leftToServer 1) tr s := ⟨_, ⟨_, _, _, rfl⟩, hr⟩
  exact ⟨tr, s, h, of_decide_eq_true hp, ended_of_reach h⟩

end UvWrapper.Service
