import UvWrapper.Server.Answers

/-! # What a step of a server can do

The steps of a server that is used through `tcpListen`, `tcpRun` and `tcpStop`, next to the other
users of its loop. The calls of libuv that are asserted to succeed do.
-/

namespace UvWrapper.TcpServer

open Function Transition Uvloop

variable {s s' : TcpServer} {a : Act} {es : List Event} {t : ℕ} {P : String → Prop} {Q C : ℕ → Prop}

/-- `tcpListen` is called with hosts satisfying `P`, ports satisfying `Q` and callbacks satisfying
`C`, and nobody else uses the acceptor; `uv_ip4_addr`, `uv_tcp_init` and `uv_tcp_bind` succeed. -/
def users (P : String → Prop) (Q C : ℕ → Prop) (_ : TcpServer) : Act → Prop
  | .registerAccept | .setIPAndPort _ _ _ | .setNewConnectCallback _ | .request _ .listen => False
  | .request _ (.tcpListen ip port cb) => P ip ∧ Q port ∧ ∃ c, cb = some c ∧ C c
  | .configure _ iErr => iErr = 0
  | .perform ini bnd _ => ini = 0 ∧ bnd = 0
  | .connectionCb _ _ ini _ => ini = 0
  | _ => True

theorem exists_callback {c : ℕ} : (∃ x, some c = some x ∧ C x) ↔ C c := by
  constructor
  · rintro ⟨x, he, hc⟩
    obtain rfl := Option.some.inj he
    exact hc
  · exact fun hc => ⟨c, rfl, hc⟩

instance [DecidablePred C] (cb : Option ℕ) : Decidable (∃ c, cb = some c ∧ C c) :=
  match cb with
  | none => .isFalse fun h => nomatch h.choose_spec.1
  | some c => decidable_of_iff (C c) exists_callback.symm

instance [DecidablePred P] [DecidablePred Q] [DecidablePred C] : DecidableRel (users P Q C) :=
  fun _ a => match a with
  | .registerAccept | .setIPAndPort _ _ _ | .setNewConnectCallback _ | .request _ .listen =>
    .isFalse id
  | .request _ (.tcpListen ip port cb) =>
    inferInstanceAs (Decidable (P ip ∧ Q port ∧ ∃ c, cb = some c ∧ C c))
  | .configure _ iErr => inferInstanceAs (Decidable (iErr = 0))
  | .perform ini bnd _ => inferInstanceAs (Decidable (ini = 0 ∧ bnd = 0))
  | .connectionCb _ _ ini _ => inferInstanceAs (Decidable (ini = 0))
  | .run _ | .setRunning _ | .stop _ | .request _ (.other _ _) | .addReq _ | .lock _ | .turn _ =>
    .isTrue trivial

def Caller.args : Caller → Option (String × ℕ × Option ℕ)
  | .starting ip port cb | .launched ip port cb | .storing ip port cb => some (ip, port, cb)
  | _ => none

/-- A thread goes on, or its call ends; until it stores them it keeps its arguments. -/
inductive Follows : Caller → Caller → Prop
  | same (c : Caller) : Follows c c
  | idle (c : Caller) : Follows c .idle
  | args (c c' : Caller) (x : String × ℕ × Option ℕ) : c.args = some x → c'.args = some x →
      Follows c c'

inductive StepCases (s : TcpServer) : Act → TcpServer → List Event → Prop
  | request (t : ℕ) (f : Api) : s.Idle t →
      StepCases s (.request t f) { s with call := update s.call t (s.begin f) } []
  | inside (a : Act) (b : Uvloop.Act Req) (th : Threads Req) (les : List (Uvloop.Event Req))
      (call : ℕ → Caller) (rs : List Event) : s.threads.step b = some (th, les) →
      (∀ β, b ≠ .turn β) → (∀ t, Follows (s.call t) (call t)) →
      (∀ t e, b = .call t (.addReq e (some .serverListenStart)) →
        (s.call t).request = some .serverListenStart) →
      (∀ r ∈ rs, ∃ t ok, r = .returned t ok) →
      StepCases s a { s with threads := th, call } (les.map .loop ++ rs)
  | again (t : ℕ) (ip : String) (port : ℕ) (cb : Option ℕ) : s.call t = .starting ip port cb →
      StepCases s (.run t) { s with call := update s.call t (.storing ip port cb) } []
  | store (t : ℕ) (ip : String) (port : ℕ) (cb : Option ℕ) (iErr : ℤ) :
      s.call t = .storing ip port cb → StepCases s (.configure t iErr)
        { s with ip, call := update s.call t (.registering port cb) } []
  | register (t port : ℕ) (cb : Option ℕ) (iErr : ℤ) : s.call t = .registering port cb →
      StepCases s (.configure t iErr) { s with
        listner := s.listner.registerAccept
        call := update s.call t (.addressing port cb) } []
  | address (t port : ℕ) (cb : Option ℕ) : s.call t = .addressing port cb →
      StepCases s (.configure t 0) { s with
        listner := { s.listner with addr := some (s.ip, port) }
        call := update s.call t (.handling cb) } []
  | handle (t : ℕ) (cb : Option ℕ) (iErr : ℤ) : s.call t = .handling cb →
      StepCases s (.configure t iErr) { s with
        listner := s.listner.setNewConnectCallback cb
        call := update s.call t .serving } []
  | unregistered (t : ℕ) (req : Req) : (s.call t).request = some req →
      req = .serverListenStart → s.listner.ploop = false →
      StepCases s (.addReq t) { s with crashed := true } [.fault]
  | turn (b : Turn) (th : Threads Req) (les : List (Uvloop.Event Req)) : s.body = none →
      s.threads.step (.turn b) = some (th, les) → StepCases s (.turn b)
        { s with threads := th, body := s.nextBody b th.loop.position } (les.map .loop)
  | listen (lis : ℤ) : s.body = some .serverListenStart → StepCases s (.perform 0 0 lis)
      { s with
        body := none
        tcps := s.tcps + 1
        listner := { s.listner with server := some s.tcps }
        listens := update s.listens s.tcps (decide (lis = 0)) }
      ((s.listner.server.map Event.freed).toList ++
        [.tcpInit s.tcps, .tcpBind s.tcps s.listner.addr, .tcpListen s.tcps])
  | other (e : EType) (id : ℕ) (ini bnd lis : ℤ) : s.body = some (.other e id) →
      StepCases s (.perform ini bnd lis) { s with body := none } []
  | failed (h : ℕ) (status ini acc : ℤ) : status < 0 →
      StepCases s (.connectionCb h status ini acc) s []
  | dropped (h : ℕ) (status ini acc : ℤ) : acc ≠ 0 →
      StepCases s (.connectionCb h status ini acc) { s with tcps := s.tcps + 1 } [.tcpInit s.tcps]
  | accepted (h : ℕ) (status : ℤ) (cb : ℕ) : 0 ≤ status → s.listens h = true →
      s.listner.connectcb = some cb → StepCases s (.connectionCb h status 0 0)
        { s with tcps := s.tcps + 1 } [.tcpInit s.tcps, .newConnection cb s.tcps]
  | empty (h : ℕ) (status ini : ℤ) : s.listens h = true → s.listner.connectcb = none →
      StepCases s (.connectionCb h status ini 0) { s with tcps := s.tcps + 1, crashed := true }
        [.tcpInit s.tcps, .fault]

theorem follows_update {c : Caller} (hc : Follows (s.call t) c) (u : ℕ) :
    Follows (s.call u) (update s.call t c u) := by
  rcases eq_or_ne u t with rfl | hu
  · rwa [update_self]
  · rw [update_of_ne hu]
    exact .same _

theorem follows_ran (c : Caller) : Follows c c.ran := by
  cases c with
  | launched ip port cb => exact .args _ _ (ip, port, cb) rfl rfl
  | _ => exact .same _

theorem launch_cases (hs : s.launch t = some (s', es)) : StepCases s (.run t) s' es := by
  unfold launch at hs
  split at hs
  · obtain ⟨th, les, ht, rfl, rfl⟩ := loopStep_cases hs
    rw [← List.append_nil (les.map _)]
    exact .inside _ _ th les s.call [] ht nofun (fun u => .same _) nofun nofun
  · next ip port cb hc =>
    split at hs
    · obtain ⟨rfl, rfl⟩ := Prod.mk.inj (Option.some.inj hs)
      exact .again t ip port cb hc
    · obtain ⟨⟨s₁, es₁⟩, hp, he⟩ := Option.map_eq_some_iff.mp hs
      obtain ⟨th, les, ht, rfl, rfl⟩ := loopStep_cases hp
      obtain ⟨rfl, rfl⟩ := Prod.mk.inj he
      rw [← List.append_nil (les.map _)]
      refine .inside _ _ th les _ [] ht nofun (follows_update ?_) nofun nofun
      exact .args _ _ (ip, port, cb) (by rw [hc]; rfl) rfl
  · contradiction

theorem configure_cases {iErr : ℤ} (hi : iErr = 0) (hs : s.configure t iErr = some (s', es)) :
    StepCases s (.configure t iErr) s' es := by
  subst hi
  unfold configure at hs
  split at hs
  · next ip port cb hc =>
    obtain ⟨rfl, rfl⟩ := Prod.mk.inj (Option.some.inj hs)
    exact .store t ip port cb 0 hc
  · next port cb hc =>
    obtain ⟨rfl, rfl⟩ := Prod.mk.inj (Option.some.inj hs)
    exact .register t port cb 0 hc
  · next port cb hc =>
    obtain ⟨rfl, rfl⟩ := Prod.mk.inj (Option.some.inj hs)
    exact .address t port cb hc
  · next cb hc =>
    obtain ⟨rfl, rfl⟩ := Prod.mk.inj (Option.some.inj hs)
    exact .handle t cb 0 hc
  · contradiction

theorem connected_cases {h : ℕ} {status acc : ℤ} (hl : s.listens h = true)
    (hs : s.connected status 0 acc = (s', es)) :
    StepCases s (.connectionCb h status 0 acc) s' es := by
  unfold connected at hs
  split at hs
  · next hst =>
    obtain ⟨rfl, rfl⟩ := Prod.mk.inj hs
    exact .failed h status 0 acc hst
  · next hst =>
    simp only [ne_eq, not_true_eq_false, if_false] at hs
    split at hs
    · next hacc =>
      obtain ⟨rfl, rfl⟩ := Prod.mk.inj hs
      exact .dropped h status 0 acc hacc
    · next hacc =>
      obtain rfl : acc = 0 := by simpa using hacc
      split at hs
      · next hcb =>
        obtain ⟨rfl, rfl⟩ := Prod.mk.inj hs
        exact .empty h status 0 hl hcb
      · next cb hcb =>
        obtain ⟨rfl, rfl⟩ := Prod.mk.inj hs
        exact .accepted h status cb (by omega) hl hcb

theorem finish_cases {b : Uvloop.Act Req} {th : Threads Req} {les : List (Uvloop.Event Req)}
    {err : LoopErr} (ht : s.threads.step b = some (th, les)) (hb : ∀ β, b ≠ .turn β)
    (hreq : ∀ u e, b = .call u (.addReq e (some .serverListenStart)) →
      (s.call u).request = some .serverListenStart)
    (hs : s.finish t err ({ s with threads := th }, les.map .loop) = (s', es)) :
    StepCases s a s' es := by
  unfold finish at hs
  split at hs <;> obtain ⟨rfl, rfl⟩ := Prod.mk.inj hs
  · refine .inside _ _ th les _ _ ht hb (follows_update (.idle _)) hreq ?_
    rintro r hr
    exact ⟨t, _, List.mem_singleton.mp hr⟩
  · rw [← List.append_nil (les.map _)]
    exact .inside _ _ th les s.call [] ht hb (fun u => .same _) hreq nofun

theorem addReq_cases (hs : s.step (.addReq t) = some (s', es)) :
    StepCases s (.addReq t) s' es := by
  obtain ⟨-, hs⟩ := Option.ite_none_left_eq_some.mp hs
  dsimp only at hs
  split at hs
  · next req hreq =>
    split at hs
    · next hp =>
      obtain ⟨rfl, rfl⟩ := Prod.mk.inj (Option.some.inj hs)
      exact .unregistered t req hreq hp.1 hp.2
    · obtain ⟨⟨s₁, es₁⟩, hl, he⟩ := Option.map_eq_some_iff.mp hs
      obtain ⟨th, les, ht, rfl, rfl⟩ := loopStep_cases hl
      have hsls : ∀ u e, (.call t (.addReq req.eType (some req)) : Uvloop.Act Req) =
          .call u (.addReq e (some .serverListenStart)) →
          (s.call u).request = some .serverListenStart := by
        rintro u e h
        obtain ⟨rfl, hf⟩ := Uvloop.Act.call.inj h
        rw [hreq, (Fill.addReq.inj hf).2]
      split at he
      · obtain ⟨rfl, rfl⟩ := Prod.mk.inj he
        rw [← List.append_nil (les.map _)]
        exact .inside _ _ th les s.call [] ht nofun (fun u => .same _) hsls nofun
      · exact finish_cases ht nofun hsls he
  · contradiction

theorem perform_cases {req : Req} {lis : ℤ} (hb : s.body = some req)
    (hs : { s with body := none }.perform req 0 0 lis = (s', es)) :
    StepCases s (.perform 0 0 lis) s' es := by
  cases req with
  | other e id =>
    obtain ⟨rfl, rfl⟩ := Prod.mk.inj hs
    exact .other e id 0 0 lis hb
  | serverListenStart =>
    simp only [perform, serverListenStart, ne_eq, not_true_eq_false, if_false,
      List.append_assoc, List.cons_append, List.nil_append] at hs
    obtain ⟨rfl, rfl⟩ := Prod.mk.inj hs
    exact .listen lis hb

theorem step_cases (hg : users P Q C s a) (hs : s.step a = some (s', es)) :
    s.crashed = false ∧ StepCases s a s' es := by
  obtain ⟨hc, hs'⟩ := Option.ite_none_left_eq_some.mp hs
  refine ⟨by simpa using hc, ?_⟩
  cases a with
  | registerAccept | setIPAndPort | setNewConnectCallback => exact hg.elim
  | run t => exact launch_cases hs'
  | setRunning t =>
    obtain ⟨⟨s₁, es₁⟩, hp, he⟩ := Option.map_eq_some_iff.mp hs'
    obtain ⟨th, les, ht, rfl, rfl⟩ := loopStep_cases hp
    obtain ⟨rfl, rfl⟩ := Prod.mk.inj he
    rw [← List.append_nil (les.map _)]
    exact .inside _ _ th les _ [] ht nofun (follows_update (follows_ran _)) nofun nofun
  | stop t =>
    obtain ⟨-, hs'⟩ := Option.ite_none_right_eq_some.mp hs'
    obtain ⟨th, les, ht, rfl, rfl⟩ := loopStep_cases hs'
    rw [← List.append_nil (les.map _)]
    exact .inside _ _ th les s.call [] ht nofun (fun u => .same _) nofun nofun
  | request t f =>
    obtain ⟨hi, hs'⟩ := Option.ite_none_right_eq_some.mp hs'
    obtain ⟨rfl, rfl⟩ := Prod.mk.inj (Option.some.inj hs')
    exact .request t f hi
  | configure t iErr => exact configure_cases hg hs'
  | addReq t => exact addReq_cases hs
  | lock t =>
    obtain ⟨⟨s₁, es₁⟩, hl, he⟩ := Option.map_eq_some_iff.mp hs'
    obtain ⟨th, les, ht, rfl, rfl⟩ := loopStep_cases hl
    exact finish_cases ht nofun nofun he
  | turn b =>
    obtain ⟨hb, hs'⟩ := Option.ite_none_right_eq_some.mp hs'
    obtain ⟨⟨s₁, es₁⟩, hp, he⟩ := Option.map_eq_some_iff.mp hs'
    obtain ⟨th, les, ht, rfl, rfl⟩ := loopStep_cases hp
    obtain ⟨rfl, rfl⟩ := Prod.mk.inj he
    exact .turn b th les hb ht
  | perform ini bnd lis =>
    obtain ⟨rfl, rfl⟩ := hg
    dsimp only at hs'
    split at hs'
    · next req hb => exact perform_cases hb (Option.some.inj hs')
    · contradiction
  | connectionCb h status ini acc =>
    obtain rfl := hg
    obtain ⟨⟨-, hl⟩, hs'⟩ := Option.ite_none_right_eq_some.mp hs'
    exact connected_cases hl (Option.some.inj hs')

end UvWrapper.TcpServer
