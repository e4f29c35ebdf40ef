import UvWrapper.Service.Steps
import UvWrapper.Host.Unused

/-! # The connections of a server

Without the fields of the server a server with its connections is a loop with connections, where
the server is one more of the other users: so each connection, those that were accepted and those
that the user has made, is a connection alone. Before it is made nothing happens to a connection.
-/

namespace UvWrapper.Service

open Function Transition Uvloop

variable {w i t : ℕ} {s s' : Service} {a : Act} {es tr : List Event} {b : Host.Act} {host : Host}
  {fs : List Host.Event} {G : Uvconnect → Uvconnect.Act → Prop}

/-! ## The loop with the connections -/

def Event.ofHost : Event → Option Host.Event
  | .host e => some e
  | .server _ | .accepted _ _ => none

def admits (G : Uvconnect → Uvconnect.Act → Prop) (i : ℕ) (s : Service) : Act → Prop
  | .host b => Host.admits G i s.host b
  | .connectionCb _ status ini acc =>
    0 ≤ status ∧ ini = 0 ∧ acc = 0 ∧ s.made = i → G (s.host.view i) .registerloopAndStream
  | .server _ | .launch _ | .addReq _ | .serverListenStart _ _ _ => True

/-- `G` admits what the server does on the loop, and what anybody needs for it. -/
structure Open (G : Uvconnect → Uvconnect.Act → Prop) : Prop extends Host.Lenient G where
  run : ∀ u t, G u (.run t)
  perform : ∀ u err, G u (.perform err)

theorem ofHost_map (fs : List Host.Event) : (fs.map Event.host).filterMap Event.ofHost = fs := by
  rw [List.filterMap_map]
  exact List.filterMap_some

theorem ofHost_server (us : List TcpServer.Event) :
    (us.map Event.server).filterMap Event.ofHost = [] := by
  rw [List.filterMap_map]
  exact List.filterMap_eq_nil_iff.mpr fun _ _ => rfl

theorem ofHost_accepted (i h : ℕ) (fs : List Host.Event) (e : TcpServer.Event) :
    (Event.server (.tcpInit h) :: Event.accepted i h :: fs.map Event.host ++
      [Event.server e]).filterMap Event.ofHost = fs := by
  rw [List.filterMap_append, List.filterMap_cons_none rfl, List.filterMap_cons_none rfl,
    ofHost_map]
  exact List.append_nil fs

theorem goOn_ofHost (s : Service) (b : Host.Act) (host : Host) (fs : List Host.Event) :
    (s.goOn b ({ s with host }, fs.map .host)).2.filterMap Event.ofHost = fs := by
  cases b with
  | lock t =>
    simp only [goOn, finish]
    split
    · rw [List.filterMap_append, ofHost_map]
      exact List.append_nil fs
    · exact ofHost_map fs
  | conn | closeCb | run | setRunning | stop | request | addReq | turn | perform =>
    exact ofHost_map fs

theorem run_listen (hG : Open G) (hc : s.host.crashed = none) (hidle : s.host.call t = .idle)
    (hs : { s.host with call := update s.host.call t (.other .tcpListen 0) }.step w (.addReq t) =
      some (host, fs)) :
    (Host.hosting w).Run (Host.admits G i) s.host fs host := by
  obtain ⟨th, les, ht, -⟩ := listen_cases hidle hs
  have hthread : s.host.threads.call t = .idle := by
    cases Threads.step_cases ht with
    | called _ _ hx | refused _ _ hx => exact hx
  have hask : s.host.step w (.request t .tcpListen 0) =
      some ({ s.host with call := update s.host.call t (.other .tcpListen 0) }, []) := by
    simp [Host.step, hc, Host.Idle, hidle, hthread]
  have hadmit : Host.admits G i s.host (.request t .tcpListen 0) :=
    hG.request _ t .tcpListen 0 (by decide)
  have hadd : (Host.hosting w).Run (Host.admits G i) _ fs host :=
    .of_step (b := .addReq t) trivial hs
  exact .head (M := Host.hosting w) hadmit hask hadd

/-- Every step is a run of the loop with the connections. -/
theorem matches_host (hG : Open G) (w i : ℕ) :
    (service w).Matches (Host.hosting w) (admits G i) (Host.admits G i) Inv Service.host
      Event.ofHost some := by
  intro s a s' es hi hg hs
  obtain ⟨-, hc, hcases⟩ := step_cases hs
  refine ⟨hi.step hs, es.filterMap Event.ofHost, ?_, List.filterMap_some⟩
  cases hcases with
  | host b host fs hb hh =>
    rw [(goOn_cases s b host fs).1, goOn_ofHost]
    exact .of_step hg hh
  | server b u us =>
    rw [ofHost_server]
    exact .nil
  | started => exact .nil
  | launch t ip port cb host fs _ _ hh =>
    rw [ofHost_map]
    exact .of_step (b := .run t) (hG.run _ t) hh
  | addReqFault => exact .nil
  | addReq t host fs hreq _ _ hh =>
    have hidle := hi.apart t (by rintro he; rw [he] at hreq; cases hreq)
    rw [ofHost_map]
    exact run_listen hG hc hidle hh
  | addReqStop t host fs hreq _ _ hh =>
    have hidle := hi.apart t (by rintro he; rw [he] at hreq; cases hreq)
    rw [List.filterMap_append, ofHost_map, List.filterMap_cons_none rfl, List.filterMap_nil,
      List.append_nil]
    exact run_listen hG hc hidle hh
  | serverListenStart ini bnd lis hb =>
    rw [ofHost_server]
    refine .of_step (b := .perform 0) (hG.perform _ 0) ?_
    simp [Host.hosting, Host.step, hc, hb, Host.perform, listenTask, put]
  | ignored => exact .nil
  | initFault | refused => exact .nil
  | unwanted h status host fs _ _ _ _ hh | accepted h status cb host fs _ _ _ _ hh =>
    rw [ofHost_accepted]
    exact .of_step (b := .conn s.made .registerloopAndStream) (fun he => hg ⟨‹_›, rfl, rfl, he⟩) hh

/-! ## Connections that are not made yet -/

/-- Nobody uses a connection that is not made. -/
def Fresh (s : Service) : Prop := ∀ i, s.made ≤ i → (s.host.view i).Unused

theorem open_unused : Open Uvconnect.unused where
  toLenient := Host.unused_lenient
  run _ _ := trivial
  perform _ _ := trivial

theorem goOn_made (s : Service) (b : Host.Act) (host : Host) (fs : List Host.Event) :
    (s.goOn b ({ s with host }, fs.map .host)).1.made = s.made := by
  cases b with
  | lock t =>
    simp only [goOn, finish]
    split <;> rfl
  | conn | closeCb | run | setRunning | stop | request | addReq | turn | perform => rfl

theorem made_le (hs : s.step w a = some (s', es)) : s.made ≤ s'.made := by
  cases (step_cases hs).2.2 with
  | host b host fs => exact (goOn_made s b host fs).ge
  | unwanted | accepted => exact Nat.le_succ _
  | server | started | launch | addReqFault | addReq | addReqStop | serverListenStart | ignored
  | initFault | refused => exact Nat.le_refl _

theorem Fresh.admitted (hf : s.Fresh) (hs : s.step w a = some (s', es)) (hi : s'.made ≤ i) :
    admits Uvconnect.unused i s a := by
  have hmade := (made_le hs).trans hi
  cases (step_cases hs).2.2 with
  | host b host fs hb hh =>
    cases b with
    | conn j c =>
      rintro rfl
      exact absurd hb.1 (not_lt.mpr hmade)
    | closeCb j h =>
      rintro rfl
      obtain ⟨-, hh⟩ := Option.ite_none_left_eq_some.mp hh
      obtain ⟨⟨-, ht⟩, -⟩ := Option.ite_none_right_eq_some.mp hh
      obtain ⟨garbage, send, hfresh⟩ := (hf j hmade).fresh
      have hraw : (s.host.conn j).tcp h = .raw :=
        congrFun (congrArg Host.Member.tcp hfresh) h
      cases ht.symm.trans hraw
    | run | setRunning | stop | request | addReq | lock | turn | perform => trivial
  | ignored h status ini acc _ _ hst =>
    rintro ⟨h0, -⟩
    exact absurd h0 (not_le.mpr hst)
  | initFault h status ini acc _ _ _ hini =>
    rintro ⟨-, h0, -⟩
    exact hini h0
  | refused h status acc _ _ _ hacc =>
    rintro ⟨-, -, h0, -⟩
    exact hacc h0
  | unwanted | accepted =>
    rintro ⟨-, -, -, rfl⟩
    exact absurd hi (Nat.not_succ_le_self _)
  | server | started | launch | addReqFault | addReq | addReqStop | serverListenStart => trivial

theorem Fresh.step (hf : s.Fresh) (hinv : s.Inv) (hs : s.step w a = some (s', es)) :
    s'.Fresh := by
  intro i hi
  obtain ⟨-, fs, hr, -⟩ := matches_host open_unused w i s a s' es hinv (hf.admitted hs hi) hs
  exact (Host.unused_run hinv.host (hf i ((made_le hs).trans hi)) hr).1

theorem fresh_create (made : ℕ) (garbage : ℕ → EType) (send : ℕ → ℕ → StSend) :
    (create made garbage send).Fresh :=
  fun i _ => Uvconnect.unused_create garbage (send i)

end UvWrapper.Service
