import UvWrapper.Service.Basic
import UvWrapper.Host.Steps
import UvWrapper.Loop.Passes

/-! # What a step of a server with its connections can do

The inversion of the step function, and where the threads are: a thread in a function of the
server is in no function of a connection, and nobody but the server asks for `ServerListenStart`.
-/

namespace UvWrapper

open Function Transition Uvloop

namespace Service

variable {w : ℕ} {s s' : Service} {a : Act} {es : List Event} {b : Host.Act} {host : Host}
  {fs : List Host.Event} {t : ℕ}

inductive StepCases (w : ℕ) (s : Service) : Act → Service → List Event → Prop
  | host (b : Host.Act) (host : Host) (fs : List Host.Event) : s.Apart b →
      s.host.step w b = some (host, fs) →
      StepCases w s (.host b) (s.goOn b ({ s with host }, fs.map .host)).1
        (s.goOn b ({ s with host }, fs.map .host)).2
  | server (b : TcpServer.Act) (u : TcpServer) (us : List TcpServer.Event) : owned b = true →
      (∀ t ∈ enters b, s.Idle t) → s.server.step b = some (u, us) →
      StepCases w s (.server b) (s.put (caller b) (u, us)).1 (us.map .server)
  | started (t : ℕ) (ip : String) (port : ℕ) (cb : Option ℕ) : s.call t = .starting ip port cb →
      s.host.threads.loop.bRunning = true →
      StepCases w s (.launch t) { s with call := update s.call t (.storing ip port cb) } []
  | launch (t : ℕ) (ip : String) (port : ℕ) (cb : Option ℕ) (host : Host)
      (fs : List Host.Event) : s.call t = .starting ip port cb →
      s.host.threads.loop.bRunning = false → s.host.step w (.run t) = some (host, fs) →
      StepCases w s (.launch t)
        { s with host, call := update s.call t (.launched ip port cb) } (fs.map .host)
  | addReqFault (t : ℕ) : (s.call t).request = some .serverListenStart →
      s.listner.ploop = false →
      StepCases w s (.addReq t) { s with crashed := true } [.server .fault]
  | addReq (t : ℕ) (host : Host) (fs : List Host.Event) :
      (s.call t).request = some .serverListenStart → s.listner.ploop = true →
      s.host.threads.loop.bRunning = true →
      { s.host with call := update s.host.call t (.other .tcpListen 0) }.step w (.addReq t) =
        some (host, fs) →
      StepCases w s (.addReq t) { s with host } (fs.map .host)
  | addReqStop (t : ℕ) (host : Host) (fs : List Host.Event) :
      (s.call t).request = some .serverListenStart → s.listner.ploop = true →
      s.host.threads.loop.bRunning = false →
      { s.host with call := update s.host.call t (.other .tcpListen 0) }.step w (.addReq t) =
        some (host, fs) →
      StepCases w s (.addReq t) { s with host, call := update s.call t .idle }
        (fs.map .host ++ [.server (.returned t ((s.call t).result .stop))])
  | serverListenStart (ini bnd lis : ℤ) : s.host.body = some listenTask →
      StepCases w s (.serverListenStart ini bnd lis)
        ({ s with host := { s.host with body := none } }.put none
          (s.server.serverListenStart ini bnd lis)).1
        ((s.server.serverListenStart ini bnd lis).2.map .server)
  | ignored (h : ℕ) (status ini acc : ℤ) : s.host.threads.loop.position = .polling →
      s.listens h = true → status < 0 → StepCases w s (.connectionCb h status ini acc) s []
  | initFault (h : ℕ) (status ini acc : ℤ) : s.host.threads.loop.position = .polling →
      s.listens h = true → 0 ≤ status → ini ≠ 0 →
      StepCases w s (.connectionCb h status ini acc) { s with tcps := s.tcps + 1, crashed := true }
        [.server (.tcpInit s.tcps), .server .fault]
  | refused (h : ℕ) (status acc : ℤ) : s.host.threads.loop.position = .polling →
      s.listens h = true → 0 ≤ status → acc ≠ 0 →
      StepCases w s (.connectionCb h status 0 acc) { s with tcps := s.tcps + 1 }
        [.server (.tcpInit s.tcps)]
  | unwanted (h : ℕ) (status : ℤ) (host : Host) (fs : List Host.Event) :
      s.host.threads.loop.position = .polling → s.listens h = true → 0 ≤ status →
      s.listner.connectcb = none →
      s.host.step w (.conn s.made .registerloopAndStream) = some (host, fs) →
      StepCases w s (.connectionCb h status 0 0)
        { s with host, tcps := s.tcps + 1, made := s.made + 1, crashed := true }
        (.server (.tcpInit s.tcps) :: .accepted s.made s.tcps :: fs.map .host ++
          [.server .fault])
  | accepted (h : ℕ) (status : ℤ) (cb : ℕ) (host : Host) (fs : List Host.Event) :
      s.host.threads.loop.position = .polling → s.listens h = true → 0 ≤ status →
      s.listner.connectcb = some cb →
      s.host.step w (.conn s.made .registerloopAndStream) = some (host, fs) →
      StepCases w s (.connectionCb h status 0 0)
        { s with host, tcps := s.tcps + 1, made := s.made + 1 }
        (.server (.tcpInit s.tcps) :: .accepted s.made s.tcps :: fs.map .host ++
          [.server (.newConnection cb s.tcps)])

theorem hostStep_cases (hs : s.hostStep w b = some (s', es)) :
    ∃ host fs, s.host.step w b = some (host, fs) ∧ s' = { s with host } ∧ es = fs.map .host := by
  obtain ⟨⟨host, fs⟩, hp, he⟩ := Option.map_eq_some_iff.mp hs
  obtain ⟨rfl, rfl⟩ := Prod.mk.inj he
  exact ⟨host, fs, hp, rfl, rfl⟩

theorem launch_cases (hs : s.launch w t = some (s', es)) : StepCases w s (.launch t) s' es := by
  unfold launch at hs
  split at hs
  · next ip port cb hc =>
    split at hs
    · next hr =>
      obtain ⟨rfl, rfl⟩ := Prod.mk.inj (Option.some.inj hs)
      exact .started t ip port cb hc hr
    · next hr =>
      obtain ⟨⟨s₁, es₁⟩, hp, he⟩ := Option.map_eq_some_iff.mp hs
      obtain ⟨rfl, rfl⟩ := Prod.mk.inj he
      obtain ⟨host, fs, hh, rfl, rfl⟩ := hostStep_cases hp
      exact .launch t ip port cb host fs hc (by simpa using hr) hh
  · contradiction

theorem addReq_cases (hs : s.addReq w t = some (s', es)) : StepCases w s (.addReq t) s' es := by
  unfold addReq at hs
  split at hs
  · next hreq =>
    split at hs
    · next hploop =>
      obtain ⟨rfl, rfl⟩ := Prod.mk.inj (Option.some.inj hs)
      exact .addReqFault t hreq hploop
    · next hploop =>
      have hploop' : s.listner.ploop = true := by simpa using hploop
      obtain ⟨⟨s₁, es₁⟩, hp, he⟩ := Option.map_eq_some_iff.mp hs
      obtain ⟨host, fs, hh, rfl, rfl⟩ := hostStep_cases hp
      split at he
      · next hr =>
        obtain ⟨rfl, rfl⟩ := Prod.mk.inj he
        exact .addReq t host fs hreq hploop' hr hh
      · next hr =>
        simp only [finish, hreq] at he
        obtain ⟨rfl, rfl⟩ := Prod.mk.inj he
        exact .addReqStop t host fs hreq hploop' (by simpa using hr) hh
  · contradiction

/-- A connection that is made needs nothing of the fields that the acceptor writes. -/
theorem connected_cases {h : ℕ} {status ini acc : ℤ}
    (hp : s.host.threads.loop.position = .polling) (hl : s.listens h = true)
    (hs : s.connected w status ini acc = some (s', es)) :
    StepCases w s (.connectionCb h status ini acc) s' es := by
  unfold connected at hs
  dsimp only at hs
  split at hs
  · next hst =>
    obtain ⟨rfl, rfl⟩ := Prod.mk.inj (Option.some.inj hs)
    exact .ignored h status ini acc hp hl hst
  · next hst =>
    rw [not_lt] at hst
    split at hs
    · next hini =>
      obtain ⟨rfl, rfl⟩ := Prod.mk.inj (Option.some.inj hs)
      exact .initFault h status ini acc hp hl hst hini
    · next hini =>
      obtain rfl : ini = 0 := not_not.mp hini
      split at hs
      · next hacc =>
        obtain ⟨rfl, rfl⟩ := Prod.mk.inj (Option.some.inj hs)
        exact .refused h status acc hp hl hst hacc
      · next hacc =>
        obtain rfl : acc = 0 := not_not.mp hacc
        obtain ⟨⟨s₁, es₁⟩, hq, he⟩ := Option.map_eq_some_iff.mp hs
        obtain ⟨host, fs, hh, rfl, rfl⟩ := hostStep_cases hq
        split at he
        · next hcb =>
          obtain ⟨rfl, rfl⟩ := Prod.mk.inj he
          exact .unwanted h status host fs hp hl hst hcb hh
        · next cb hcb =>
          obtain ⟨rfl, rfl⟩ := Prod.mk.inj he
          exact .accepted h status cb host fs hp hl hst hcb hh

theorem step_cases (hs : s.step w a = some (s', es)) :
    s.crashed = false ∧ s.host.crashed = none ∧ StepCases w s a s' es := by
  obtain ⟨hc, hs⟩ := Option.ite_none_left_eq_some.mp hs
  obtain ⟨hc, hh⟩ := not_or.mp hc
  refine ⟨by simpa using hc, by simpa using hh, ?_⟩
  cases a with
  | host b =>
    obtain ⟨hb, hs⟩ := Option.ite_none_right_eq_some.mp hs
    obtain ⟨⟨s₁, es₁⟩, hp, he⟩ := Option.map_eq_some_iff.mp hs
    obtain ⟨host, fs, hh, rfl, rfl⟩ := hostStep_cases hp
    have hcase := StepCases.host b host fs hb hh
    rw [he] at hcase
    exact hcase
  | server b =>
    obtain ⟨⟨ho, hi⟩, hs⟩ := Option.ite_none_right_eq_some.mp hs
    obtain ⟨⟨u, us⟩, hu, he⟩ := Option.map_eq_some_iff.mp hs
    obtain ⟨rfl, rfl⟩ := Prod.mk.inj he
    exact .server b u us ho hi hu
  | launch t => exact launch_cases hs
  | addReq t => exact addReq_cases hs
  | serverListenStart ini bnd lis =>
    obtain ⟨hb, hs⟩ := Option.ite_none_right_eq_some.mp hs
    obtain ⟨rfl, rfl⟩ := Prod.mk.inj (Option.some.inj hs)
    exact .serverListenStart ini bnd lis hb
  | connectionCb h status ini acc =>
    obtain ⟨⟨hp, hl⟩, hs⟩ := Option.ite_none_right_eq_some.mp hs
    exact connected_cases hp hl hs

end Service

/-! ## The loop thread -/

namespace Host

variable {w t : ℕ} {s s' : Host} {a : Act} {es : List Event}

def Seated (s : Host) : Prop := s.body ≠ none → ∃ h, s.threads.loop.position = .running h

theorem closed_body (s : Host) (i h : ℕ) : (s.closed i h).1.body = s.body := by
  unfold closed connectToServer
  dsimp only
  split
  · split <;> rfl
  · rfl

theorem Seated.turn (hi : s.Seated) {b : Turn} {th : Threads Task}
    {les : List (Uvloop.Event Task)} (ht : s.threads.step (.turn b) = some (th, les))
    (hb : ¬ (b = .tcbReturn ∧ s.body.isSome)) :
    Seated { s with threads := th, body := s.nextBody b th.loop.position } := by
  intro hne
  have hne' : s.nextBody b th.loop.position ≠ none := hne
  by_cases hfire : ∃ x, b = .fire x
  · obtain ⟨x, rfl⟩ := hfire
    cases hp : th.loop.position with
    | running y => exact ⟨y, rfl⟩
    | down | polling | ran | left | aborted => exact (hne' (by rw [hp]; rfl)).elim
  · have hsame : s.nextBody b th.loop.position = s.body := by
      cases b with
      | fire x => exact (hfire ⟨x, rfl⟩).elim
      | tcbReturn | recycle | skip | newPass | leave | clearRunning => rfl
    rw [hsame] at hne'
    obtain ⟨y, hy⟩ := hi hne'
    obtain ⟨-, hturn⟩ := Threads.turn_cases ht
    have hret : b = .tcbReturn := turn_of_running hturn hy
    exact (hb ⟨hret, Option.isSome_iff_ne_none.mpr hne'⟩).elim

theorem Seated.step (hi : s.Seated) (hs : s.step w a = some (s', es)) : s'.Seated := by
  have hquiet : ∀ {b : Uvloop.Act Task} {th les}, s.threads.step b = some (th, les) →
      (∀ c, b ≠ .turn c) → s.body ≠ none → ∃ h, th.loop.position = .running h := by
    intro b th les ht hb hne
    obtain ⟨x, hx⟩ := hi hne
    exact ⟨x, Threads.running_kept ht hb hx⟩
  cases (step_cases hs).2 with
  | conn i b u fs ho he hu => exact hi
  | closeCb i h hp =>
    intro hne
    rw [closed_body] at hne
    obtain ⟨x, hx⟩ := hi hne
    cases hp.symm.trans hx
  | loop a b c th les hl ht => exact hquiet ht (by rintro c rfl; cases hl)
  | request | addReqFault => exact hi
  | addReq t task th les _ _ ht => exact hquiet ht (by simp)
  | lock t th les ht => exact hquiet ht (by simp)
  | turn b th les ht hb => exact hi.turn ht hb
  | perform task err =>
    intro hne
    rw [(perform_call { s with body := none } task err).2.2] at hne
    exact (hne rfl).elim

def Act.thread : Act → Option ℕ
  | .conn _ a => caller a
  | .request t _ _ | .addReq t => some t
  | .closeCb _ _ | .run _ | .setRunning _ | .stop _ | .lock _ | .turn _ | .perform _ => none

theorem call_of_step (hs : s.step w a = some (s', es)) (ht : a.thread ≠ some t) :
    s'.call t = s.call t := by
  have hne : ∀ x, a.thread = some x → t ≠ x := fun x hx he => ht (he ▸ hx)
  cases (step_cases hs).2 with
  | conn i b u fs =>
    cases hb : caller b with
    | none => simp [put]
    | some x =>
      have htx : t ≠ x := hne x hb
      simp [put, htx]
  | closeCb i h => rw [(closed_call s i h).1]
  | loop | addReqFault | lock | turn => rfl
  | request x | addReq x => exact update_of_ne (hne x rfl) ..
  | perform task err => rw [(perform_call { s with body := none } task err).1]

theorem other_of_step {e : EType} {id : ℕ} (hs : s.step w a = some (s', es))
    (hc : s'.call t = .other e id) : s.call t = .other e id ∨ a = .request t e id := by
  by_cases ht : a.thread = some t
  · cases (step_cases hs).2 with
    | conn i b u fs =>
      have hb : caller b = some t := ht
      simp only [put, hb, update_self] at hc
      unfold Place.of at hc
      split at hc <;> cases hc
    | request x e' id' =>
      obtain rfl : x = t := Option.some.inj ht
      obtain ⟨rfl, rfl⟩ : e' = e ∧ id' = id := by simpa using hc
      exact .inr rfl
    | addReqFault => exact .inl hc
    | addReq x =>
      obtain rfl : x = t := Option.some.inj ht
      simp at hc
    | loop a b c th les hl => cases hl <;> cases ht
    | closeCb | lock | turn | perform => cases ht
  · exact .inl ((call_of_step hs ht).symm.trans hc)

theorem Act.enters_of_step (hs : s.step w a = some (s', es)) (ht : a.thread = some t)
    (hc : s.call t = .idle) :
    (∃ i b, a = .conn i b ∧ t ∈ Host.enters b) ∨ ∃ e id, a = .request t e id := by
  cases (step_cases hs).2 with
  | conn i b u fs ho he hu =>
    have hidle : (s.view i).call t = .idle := by simp [view, hc, Place.seen]
    exact .inl ⟨i, b, rfl, (caller_before hu ht).2 hidle⟩
  | request x e id =>
    obtain rfl := Option.some.inj ht
    exact .inr ⟨e, id, rfl⟩
  | addReqFault x i task hx | addReq x task th les hx =>
    obtain rfl := Option.some.inj ht
    rw [hc] at hx
    cases hx
  | loop a b c th les hl => cases hl <;> cases ht
  | closeCb | lock | turn | perform => cases ht

end Host

namespace Service

/-! ## The threads -/

variable {w : ℕ} {s s' : Service} {a : Act} {es : List Event} {b : Host.Act} {host : Host}
  {fs : List Host.Event} {t : ℕ}

/-- A thread in a function of the server is in no other, only the server asks for
`ServerListenStart`, and there are always threads that do nothing. -/
structure Inv (s : Service) : Prop where
  host : s.host.Inv
  seated : s.host.Seated
  apart : ∀ t, s.call t ≠ .idle → s.host.call t = .idle
  others : ∀ t, s.host.call t ≠ .other .tcpListen 0
  spare : ∃ n, ∀ t, n ≤ t → s.call t = .idle

theorem Inv.spare_update (hi : s.Inv) (t : ℕ) (c : TcpServer.Caller) :
    ∃ n, ∀ x, n ≤ x → update s.call t c x = .idle := by
  obtain ⟨n, hn⟩ := hi.spare
  refine ⟨max n (t + 1), fun x hx => ?_⟩
  have hxt : x ≠ t := by omega
  rw [update_of_ne hxt]
  exact hn x (by omega)

theorem Inv.of_update (hi : s.Inv) (hcall : s'.host.call = s.host.call) (hinv : s'.host.Inv)
    (hseat : s'.host.Seated) {c : TcpServer.Caller} (hidle : s.host.call t = .idle)
    (hc : s'.call = update s.call t c) : s'.Inv := by
  constructor
  case host => exact hinv
  case seated => exact hseat
  case apart =>
    intro x hx
    rw [hcall]
    rcases eq_or_ne x t with rfl | hxt
    · exact hidle
    · rw [hc, update_of_ne hxt] at hx
      exact hi.apart x hx
  case others => rw [hcall]; exact hi.others
  case spare => rw [hc]; exact hi.spare_update t c

theorem Inv.of_eq (hi : s.Inv) (hcall : s'.host.call = s.host.call) (hinv : s'.host.Inv)
    (hseat : s'.host.Seated) (hc : s'.call = s.call) : s'.Inv where
  host := hinv
  seated := hseat
  apart := by rw [hc, hcall]; exact hi.apart
  others := by rw [hcall]; exact hi.others
  spare := by rw [hc]; exact hi.spare

/-- `AddReq` in `listen` is the call of a thread that asks for it and is gone from the functions
outside the loop at once. -/
theorem listen_cases (hidle : s.host.call t = .idle)
    (hs : { s.host with call := update s.host.call t (.other .tcpListen 0) }.step w (.addReq t) =
      some (host, fs)) :
    ∃ th les, s.host.threads.step (.call t (.addReq .tcpListen (some listenTask))) =
        some (th, les) ∧ host = { s.host with threads := th } ∧
      fs = les.map .loop ++
        if s.host.threads.loop.bRunning then [] else [.returned t listenTask .stop] := by
  have hback : update (update s.host.call t (.other .tcpListen 0)) t .idle = s.host.call := by
    rw [update_idem, ← hidle, update_eq_self]
  cases (Host.step_cases hs).2 with
  | loop _ _ _ _ _ hl => cases hl
  | addReqFault _ i task htask hu =>
    obtain rfl : listenTask = task := by simpa [Host.Place.task, listenTask] using htask
    cases hu
  | addReq _ task th les htask hu ht =>
    obtain rfl : listenTask = task := by simpa [Host.Place.task, listenTask] using htask
    exact ⟨th, les, ht, by rw [hback], rfl⟩

/-- The loop thread, a connection or another user never takes a thread out of a function of the
server but to its next place there. -/
theorem goOn_cases (s : Service) (b : Host.Act) (host : Host) (fs : List Host.Event) :
    (s.goOn b ({ s with host }, fs.map .host)).1.host = host ∧
      ((s.goOn b ({ s with host }, fs.map .host)).1.call = s.call ∨
        ∃ t c, (s.goOn b ({ s with host }, fs.map .host)).1.call = update s.call t c ∧
          (c ≠ .idle → s.call t ≠ .idle)) := by
  cases b with
  | setRunning t =>
    refine ⟨rfl, .inr ⟨t, (s.call t).ran, rfl, ?_⟩⟩
    rintro hc he
    exact hc (by rw [he]; rfl)
  | lock t =>
    simp only [goOn, finish]
    split
    · exact ⟨rfl, .inr ⟨t, .idle, rfl, fun h => (h rfl).elim⟩⟩
    · exact ⟨rfl, .inl rfl⟩
  | conn | closeCb | run | stop | request | addReq | turn | perform => exact ⟨rfl, .inl rfl⟩

theorem Inv.of_host (hi : s.Inv) (hb : s.Apart b) (hs : s.host.step w b = some (host, fs)) :
    (s.goOn b ({ s with host }, fs.map .host)).1.Inv := by
  obtain ⟨hhost, hcall⟩ := goOn_cases s b host fs
  have hkept : ∀ x, s.call x ≠ .idle → host.call x = .idle := by
    intro x hx
    have hidle := hi.apart x hx
    by_cases ht : b.thread = some x
    · rcases Host.Act.enters_of_step hs ht hidle with ⟨i, c, rfl, hc⟩ | ⟨e, id, rfl⟩
      · exact (hx (hb.2 x hc)).elim
      · exact (hx hb.1).elim
    · exact (Host.call_of_step hs ht).trans hidle
  constructor
  case host =>
    rw [hhost]
    exact hi.host.step hs
  case seated =>
    rw [hhost]
    exact hi.seated.step hs
  case apart =>
    rw [hhost]
    intro x hx
    rcases hcall with hcall | ⟨t, c, hcall, hc⟩
    · exact hkept x (by rwa [← hcall])
    · rw [hcall] at hx
      rcases eq_or_ne x t with rfl | hxt
      · exact hkept x (hc (by rwa [update_self] at hx))
      · exact hkept x (by rwa [update_of_ne hxt] at hx)
  case others =>
    rw [hhost]
    intro x hx
    rcases Host.other_of_step hs hx with hx | rfl
    · exact hi.others x hx
    · exact hb.2 rfl
  case spare =>
    rcases hcall with hcall | ⟨t, c, hcall, -⟩
    · rw [hcall]
      exact hi.spare
    · rw [hcall]
      exact hi.spare_update t c

theorem not_idle_of_configure {iErr : ℤ} {u : TcpServer × List TcpServer.Event}
    (hs : s.server.step (.configure t iErr) = some u) : s.call t ≠ .idle := by
  intro hc
  obtain ⟨-, hs⟩ := Option.ite_none_left_eq_some.mp hs
  have hplace : s.server.call t = foreign (s.host.call t) (s.host.threads.call t) := if_pos hc
  change s.server.configure t iErr = _ at hs
  unfold TcpServer.configure at hs
  rw [hplace] at hs
  unfold foreign at hs
  split at hs <;> try cases hs
  all_goals next hf => split at hf <;> cases hf

theorem Inv.of_server (hi : s.Inv) {b : TcpServer.Act} {u : TcpServer}
    {us : List TcpServer.Event} (ho : owned b = true) (he : ∀ t ∈ enters b, s.Idle t)
    (hs : s.server.step b = some (u, us)) : (s.put (caller b) (u, us)).1.Inv := by
  cases hb : caller b with
  | none => exact hi.of_eq rfl hi.host hi.seated rfl
  | some t =>
    have hidle : s.host.call t = .idle := by
      cases b with
      | request x f =>
        obtain rfl := Option.some.inj hb
        exact (he x rfl).2.1
      | configure x iErr =>
        obtain rfl := Option.some.inj hb
        exact hi.apart x (not_idle_of_configure hs)
      | _ => cases hb
    exact hi.of_update rfl hi.host hi.seated hidle rfl

theorem Inv.step (hi : s.Inv) (hs : s.step w a = some (s', es)) : s'.Inv := by
  have hnew : ∀ {host : Host} {fs},
      s.host.step w (.conn s.made .registerloopAndStream) = some (host, fs) →
      host.call = s.host.call ∧ host.Inv ∧ host.Seated := fun hh =>
    ⟨funext fun _ => Host.call_of_step hh nofun, hi.host.step hh, hi.seated.step hh⟩
  have hlisten : ∀ {t : ℕ} {host : Host} {fs}, (s.call t).request = some .serverListenStart →
      { s.host with call := update s.host.call t (.other .tcpListen 0) }.step w (.addReq t) =
        some (host, fs) →
      s.host.call t = .idle ∧ host.call = s.host.call ∧ host.Inv ∧ host.Seated := by
    intro t host fs hreq hh
    have hidle := hi.apart t (by rintro he; rw [he] at hreq; cases hreq)
    obtain ⟨th, les, ht, rfl, rfl⟩ := listen_cases hidle hh
    refine ⟨hidle, rfl, hi.host.of_threads ht (fun x hx => ?_) rfl rfl, fun hne => ?_⟩
    · obtain rfl : t = x := Option.some.inj hx
      exact hidle
    · obtain ⟨y, hy⟩ := hi.seated hne
      exact ⟨y, Threads.running_kept ht (by simp) hy⟩
  cases (step_cases hs).2.2 with
  | host b host fs hb hh => exact hi.of_host hb hh
  | server b u us ho he hu => exact hi.of_server ho he hu
  | started t ip port cb hc =>
    have hidle := hi.apart t (by simp [hc])
    exact hi.of_update rfl hi.host hi.seated hidle rfl
  | launch t ip port cb host fs hc _ hh =>
    have hidle := hi.apart t (by simp [hc])
    have hcall : host.call = s.host.call := funext fun _ => Host.call_of_step hh nofun
    exact hi.of_update hcall (hi.host.step hh) (hi.seated.step hh) hidle rfl
  | addReqFault => exact hi.of_eq rfl hi.host hi.seated rfl
  | addReq t host fs hreq _ _ hh =>
    obtain ⟨-, hcall, hinv, hseat⟩ := hlisten hreq hh
    exact hi.of_eq hcall hinv hseat rfl
  | addReqStop t host fs hreq _ _ hh =>
    obtain ⟨hidle, hcall, hinv, hseat⟩ := hlisten hreq hh
    exact hi.of_update hcall hinv hseat hidle rfl
  | serverListenStart =>
    exact hi.of_eq rfl (hi.host.of_eq rfl rfl) (fun hne => (hne rfl).elim) rfl
  | ignored => exact hi
  | initFault | refused => exact hi.of_eq rfl hi.host hi.seated rfl
  | unwanted h status host fs _ _ _ _ hh | accepted h status cb host fs _ _ _ _ hh =>
    obtain ⟨hcall, hinv, hseat⟩ := hnew hh
    exact hi.of_eq hcall hinv hseat rfl

theorem create_inv (made : ℕ) (garbage : ℕ → EType) (send : ℕ → ℕ → StSend) :
    (create made garbage send).Inv where
  host := Host.create_inv garbage send
  seated := fun hne => (hne rfl).elim
  apart := fun _ _ => rfl
  others := by simp [create, Host.create]
  spare := ⟨0, fun _ _ => rfl⟩

end Service

end UvWrapper
