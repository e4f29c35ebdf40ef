import UvWrapper.Server.Steps

/-! # Listening

A server that is used through `tcpListen` binds what some call has asked for, listens once for
each request that the loop runs, and hands every connection over once. Each `ServerListenStart`
after the first frees the handle of the one before, which goes on listening.
-/

namespace UvWrapper.TcpServer

open Function Transition Uvloop

variable {s s' : TcpServer} {a : Act} {es tr : List Event} {t : ℕ} {P : String → Prop}
  {Q C : ℕ → Prop}

/-! ## What a request finds -/

/-- The callback that a call of `tcpListen` brings is one of those. -/
def Known (C : ℕ → Prop) (cb : Option ℕ) : Prop := ∃ c, cb = some c ∧ C c

def Located (P : String → Prop) (Q : ℕ → Prop) (addr : Option Sockaddr) : Prop :=
  ∃ ip port, addr = some (ip, port) ∧ P ip ∧ Q port

structure Ready (P : String → Prop) (Q C : ℕ → Prop) (s : TcpServer) : Prop where
  host : P s.ip
  ploop : s.listner.ploop = true
  addr : Located P Q s.listner.addr
  connectcb : Known C s.listner.connectcb

/-- What a call of `tcpListen` still carries is fit to be stored, and what it has stored is
there. -/
def Fits (P : String → Prop) (Q C : ℕ → Prop) (s : TcpServer) : Caller → Prop
  | .idle | .adding _ _ => True
  | .starting ip port cb | .launched ip port cb | .storing ip port cb =>
    P ip ∧ Q port ∧ Known C cb
  | .registering port cb => P s.ip ∧ Q port ∧ Known C cb
  | .addressing port cb => P s.ip ∧ s.listner.ploop = true ∧ Q port ∧ Known C cb
  | .handling cb => P s.ip ∧ s.listner.ploop = true ∧ Located P Q s.listner.addr ∧ Known C cb
  | .serving => Ready P Q C s
  | .listening => False

/-- A request to listen is under way, or a handle listens. -/
inductive Asked (s : TcpServer) : Prop
  | waiting (t : ℕ) (e : EType) :
      s.threads.call t = .locking (.addReq e (some .serverListenStart)) → Asked s
  | signalled (h : ℕ) : (s.threads.loop.async h).tcb = some .serverListenStart → Asked s
  | running : s.body = some .serverListenStart → Asked s
  | listens (h : ℕ) : s.listens h = true → Asked s

structure Keeps (P : String → Prop) (Q C : ℕ → Prop) (s s' : TcpServer) : Prop where
  host : P s.ip → P s'.ip
  ploop : s.listner.ploop = true → s'.listner.ploop = true
  addr : Located P Q s.listner.addr → Located P Q s'.listner.addr
  connectcb : Known C s.listner.connectcb → Known C s'.listner.connectcb

theorem Keeps.of_eq (hi : s'.ip = s.ip) (hp : s'.listner.ploop = s.listner.ploop)
    (ha : s'.listner.addr = s.listner.addr) (hc : s'.listner.connectcb = s.listner.connectcb) :
    Keeps P Q C s s' :=
  ⟨fun h => hi ▸ h, fun h => hp ▸ h, fun h => ha ▸ h, fun h => hc ▸ h⟩

theorem Ready.keeps (hr : Ready P Q C s) (hk : Keeps P Q C s s') : Ready P Q C s' :=
  ⟨hk.host hr.host, hk.ploop hr.ploop, hk.addr hr.addr, hk.connectcb hr.connectcb⟩

theorem Fits.keeps {c : Caller} (hf : Fits P Q C s c) (hk : Keeps P Q C s s') :
    Fits P Q C s' c := by
  cases c with
  | idle | adding | starting | launched | storing | listening => exact hf
  | registering => exact ⟨hk.host hf.1, hf.2⟩
  | addressing => exact ⟨hk.host hf.1, hk.ploop hf.2.1, hf.2.2⟩
  | handling => exact ⟨hk.host hf.1, hk.ploop hf.2.1, hk.addr hf.2.2.1, hf.2.2.2⟩
  | serving => exact Ready.keeps hf hk

theorem Fits.follows {c c' : Caller} (hf : Fits P Q C s c) (hc : Follows c c') :
    Fits P Q C s c' := by
  cases hc with
  | same => exact hf
  | idle => trivial
  | args _ x hx hx' =>
    have hargs : ∀ {c : Caller}, c.args = some x →
        (Fits P Q C s c ↔ P x.1 ∧ Q x.2.1 ∧ Known C x.2.2) := by
      intro c hc
      cases c <;> simp [Caller.args] at hc <;> subst hc <;> rfl
    exact (hargs hx').mpr ((hargs hx).mp hf)

structure Inv (P : String → Prop) (Q C : ℕ → Prop) (s : TcpServer) : Prop where
  call : ∀ t, Fits P Q C s (s.call t)
  asked : Asked s → Ready P Q C s
  crashed : s.crashed = false

theorem Asked.congr (h : Asked s') (ht : s'.threads = s.threads) (hb : s'.body = s.body)
    (hl : s'.listens = s.listens) : Asked s := by
  cases h with
  | waiting t e h => exact .waiting t e (ht ▸ h)
  | signalled h hx => exact .signalled h (ht ▸ hx)
  | running h => exact .running (hb ▸ h)
  | listens h hx => exact .listens h (hl ▸ hx)

theorem nextBody_eq_some {b : Turn} {position : Position} {req : Req}
    (h : s.nextBody b position = some req) : ∃ x, (s.threads.loop.async x).tcb = some req := by
  unfold nextBody at h
  split at h
  · exact ⟨_, h⟩
  · contradiction

theorem Asked.step (hs : StepCases s a s' es) (h : Asked s') :
    Asked s ∨ ∃ t, (s.call t).request = some .serverListenStart := by
  -- a callback on a handle was there, or with a thread that was waiting for the lock
  have htcb : ∀ {b th les x}, s.threads.step b = some (th, les) →
      (th.loop.async x).tcb = some .serverListenStart → Asked s := by
    intro b th les x ht hx
    rcases Threads.tcb_of_step ht hx with hx | ⟨t, e, -, hc, -⟩
    · exact .signalled x hx
    · exact .waiting t e hc
  cases hs with
  | request | again | store | register | address | handle | unregistered | failed | dropped
  | accepted | empty => exact .inl (h.congr rfl rfl rfl)
  | inside _ b th les call rs ht hb hcall hreq hrs =>
    cases h with
    | waiting t e hc =>
      rcases Threads.step_call ht hc with hc | rfl
      · exact .inl (.waiting t e hc)
      · exact .inr ⟨t, hreq t e rfl⟩
    | signalled x hx => exact .inl (htcb ht hx)
    | running h => exact .inl (.running h)
    | listens x hx => exact .inl (.listens x hx)
  | turn b th les hb ht =>
    cases h with
    | waiting t e hc => exact .inl (.waiting t e ((Threads.turn_cases ht).1 ▸ hc))
    | signalled x hx => exact .inl (htcb ht hx)
    | running h =>
      obtain ⟨x, hx⟩ := nextBody_eq_some h
      exact .inl (.signalled x hx)
    | listens x hx => exact .inl (.listens x hx)
  | listen lis hb => exact .inl (.running hb)
  | other e id ini bnd lis hb =>
    cases h with
    | waiting t e hc => exact .inl (.waiting t e hc)
    | signalled x hx => exact .inl (.signalled x hx)
    | running h => contradiction
    | listens x hx => exact .inl (.listens x hx)

theorem Inv.keeps (hi : Inv P Q C s) (hs : StepCases s a s' es) : Keeps P Q C s s' := by
  cases hs with
  | request | inside | again | unregistered | turn | listen | other | failed | dropped | accepted
  | empty => exact .of_eq rfl rfl rfl rfl
  | store t ip port cb iErr hc =>
    have hf := hi.call t
    rw [hc] at hf
    exact ⟨fun _ => hf.1, id, id, id⟩
  | register => exact ⟨id, fun _ => rfl, id, id⟩
  | address t port cb hc =>
    have hf := hi.call t
    rw [hc] at hf
    exact ⟨id, id, fun _ => ⟨s.ip, port, rfl, hf.1, hf.2.2.1⟩, id⟩
  | handle t cb iErr hc =>
    have hf := hi.call t
    rw [hc] at hf
    exact ⟨id, id, id, fun _ => hf.2.2.2⟩

theorem fits_update {c : Caller} (hi : Inv P Q C s) (hk : Keeps P Q C s s') (hc : Fits P Q C s' c)
    (u : ℕ) : Fits P Q C s' (update s.call t c u) := by
  rcases eq_or_ne u t with rfl | hu
  · rwa [update_self]
  · rw [update_of_ne hu]
    exact (hi.call u).keeps hk

theorem Inv.call_step (hi : Inv P Q C s) (hg : users P Q C s a) (hs : StepCases s a s' es)
    (u : ℕ) : Fits P Q C s' (s'.call u) := by
  have hk := hi.keeps hs
  cases hs with
  | unregistered | turn | listen | other | failed | dropped | accepted | empty =>
    exact (hi.call u).keeps hk
  | inside _ b th les call rs ht hb hcall => exact ((hi.call u).follows (hcall u)).keeps hk
  | request t f hidle =>
    refine fits_update (c := s.begin f) hi hk ?_ u
    cases f with
    | tcpListen ip port cb =>
      dsimp only [begin]
      split <;> exact hg
    | listen => exact hg.elim
    | other => trivial
  | again t ip port cb hc =>
    have hf := hi.call t
    rw [hc] at hf
    exact fits_update (c := .storing ip port cb) hi hk hf u
  | store t ip port cb iErr hc =>
    have hf := hi.call t
    rw [hc] at hf
    exact fits_update (c := .registering port cb) hi hk hf u
  | register t port cb iErr hc =>
    have hf := hi.call t
    rw [hc] at hf
    exact fits_update (c := .addressing port cb) hi hk ⟨hf.1, rfl, hf.2⟩ u
  | address t port cb hc =>
    have hf := hi.call t
    rw [hc] at hf
    have ha : Located P Q (some (s.ip, port)) := ⟨s.ip, port, rfl, hf.1, hf.2.2.1⟩
    exact fits_update (c := .handling cb) hi hk ⟨hf.1, hf.2.1, ha, hf.2.2.2⟩ u
  | handle t cb iErr hc =>
    have hf := hi.call t
    rw [hc] at hf
    refine fits_update (c := .serving) hi hk ?_ u
    exact ⟨hf.1, hf.2.1, hf.2.2.1, hf.2.2.2⟩

theorem Inv.ready_of_request (hi : Inv P Q C s)
    (ht : (s.call t).request = some .serverListenStart) : Ready P Q C s := by
  have hf := hi.call t
  cases hc : s.call t with
  | serving => rwa [hc] at hf
  | listening =>
    rw [hc] at hf
    exact hf.elim
  | _ => simp [hc, Caller.request] at ht

theorem Inv.asked_step (hi : Inv P Q C s) (hs : StepCases s a s' es) (h : Asked s') :
    Ready P Q C s' := by
  have hr : Ready P Q C s := by
    rcases h.step hs with h | ⟨t, ht⟩
    · exact hi.asked h
    · exact hi.ready_of_request ht
  exact hr.keeps (hi.keeps hs)

theorem Inv.crashed_step (hi : Inv P Q C s) (hs : StepCases s a s' es) : s'.crashed = false := by
  cases hs with
  | unregistered t req hreq he hp =>
    have hr := hi.ready_of_request (he ▸ hreq)
    exact (Bool.false_ne_true (hp.symm.trans hr.ploop)).elim
  | empty h status ini hl hcb =>
    obtain ⟨c, hc, -⟩ := (hi.asked (.listens h hl)).connectcb
    exact (Option.some_ne_none c (hc.symm.trans hcb)).elim
  | _ => exact hi.crashed

theorem Inv.step (hi : Inv P Q C s) (hg : users P Q C s a) (hs : s.step a = some (s', es)) :
    Inv P Q C s' := by
  obtain ⟨-, hcases⟩ := step_cases hg hs
  exact ⟨hi.call_step hg hcases, hi.asked_step hcases, hi.crashed_step hcases⟩

theorem inv_of_reach (h : serving.Reach (users P Q C) tr s) : Inv P Q C s := by
  refine h.stateInvariant ?_ fun _ _ _ _ _ _ hi hg hs => hi.step hg hs
  rintro s ⟨garbage, rfl⟩
  refine ⟨fun t => trivial, ?_, rfl⟩
  intro h
  cases h <;> contradiction

/-! ## Histories -/

/-- The tcp handles that are initialised, that are told to listen, that are freed, and that are
used: to listen, or handed over. -/
def Event.inited : Event → Option ℕ
  | .tcpInit h => some h
  | _ => none

def Event.listening : Event → Option ℕ
  | .tcpListen h => some h
  | _ => none

def Event.released : Event → Option ℕ
  | .freed h => some h
  | _ => none

def Event.used : Event → Option ℕ
  | .tcpListen h | .newConnection _ h => some h
  | _ => none

def Event.asks : Event → Option Unit
  | .loop (.ran _ ⟨e, some .serverListenStart⟩) => if e = .loopStop then none else some ()
  | _ => none

def Event.starts : Event → Option Unit
  | .tcpListen _ => some ()
  | _ => none

/-- The requests to listen that the loop thread has entered and not executed. -/
def entered (s : TcpServer) : List Unit := if s.body = some .serverListenStart then [()] else []

structure Handles (tr : List Event) (s : TcpServer) : Prop where
  /-- Every request to listen that the loop runs leads to one `uv_listen`. -/
  served : tr.filterMap Event.asks = tr.filterMap Event.starts ++ s.entered
  /-- Each handle is initialised once, and used at most once. -/
  inited : tr.filterMap Event.inited = List.range s.tcps
  fresh : (tr.filterMap Event.used).Sublist (List.range s.tcps)
  /-- All that were told to listen but the last have been freed, once and in this order. -/
  freed : tr.filterMap Event.released = (tr.filterMap Event.listening).dropLast
  last : s.listner.server = (tr.filterMap Event.listening).getLast?
  listens : ∀ h, s.listens h = true → h ∈ tr.filterMap Event.listening

def Event.Quiet (e : Event) : Prop := (∃ l, e = .loop l) ∨ ∃ t ok, e = .returned t ok

theorem filterMap_quiet {β : Type} {f : Event → Option β} (hq : ∀ e ∈ es, e.Quiet)
    (hl : ∀ e, f (.loop e) = none) (hr : ∀ t ok, f (.returned t ok) = none) :
    es.filterMap f = [] := by
  rw [List.filterMap_eq_nil_iff]
  intro e he
  rcases hq e he with ⟨l, rfl⟩ | ⟨t, ok, rfl⟩
  · exact hl l
  · exact hr t ok

/-- What the steps do to the tcp handles. -/
inductive Effect (P : String → Prop) (Q C : ℕ → Prop) (s : TcpServer) :
    TcpServer → List Event → Prop
  | quiet (s' : TcpServer) (es : List Event) : (∀ e ∈ es, e.Quiet) → s'.tcps = s.tcps →
      s'.listens = s.listens → s'.listner.server = s.listner.server →
      Passes Event.asks Event.starts s.entered es s'.entered → Effect P Q C s s' es
  | listen (s' : TcpServer) (lis : ℤ) : s.entered = [()] → s'.entered = [] →
      s'.tcps = s.tcps + 1 → s'.listner.server = some s.tcps →
      s'.listens = update s.listens s.tcps (decide (lis = 0)) → Located P Q s.listner.addr →
      Effect P Q C s s' ((s.listner.server.map Event.freed).toList ++
        [.tcpInit s.tcps, .tcpBind s.tcps s.listner.addr, .tcpListen s.tcps])
  | dropped : Effect P Q C s { s with tcps := s.tcps + 1 } [.tcpInit s.tcps]
  | accepted (cb : ℕ) : C cb →
      Effect P Q C s { s with tcps := s.tcps + 1 } [.tcpInit s.tcps, .newConnection cb s.tcps]

theorem asks_of_call {b : Uvloop.Act Req} {th : Threads Req} {les : List (Uvloop.Event Req)}
    (ht : s.threads.step b = some (th, les)) (hb : ∀ β, b ≠ .turn β) :
    (les.map Event.loop).filterMap Event.asks = [] := by
  cases Threads.step_cases ht with
  | called | run | setRunning => rfl
  | refused => rfl
  | lock t fill =>
    rcases submit_cases s.threads.loop fill with ⟨-, he⟩ | ⟨h, l', -, he⟩ <;> rw [he] <;> rfl
  | turn β => exact (hb β rfl).elim

theorem asks_of_turn {b : Turn} {l : Uvloop Req} {les : List (Uvloop.Event Req)}
    (ht : s.threads.loop.turn b = some (l, les)) :
    (les.map Event.loop).filterMap Event.asks =
      if s.nextBody b l.position = some .serverListenStart then [()] else [] := by
  cases b with
  | fire h =>
    have hcall := Option.some.inj (Option.ite_none_right_eq_some.mp ht).2
    unfold callback at hcall
    dsimp only at hcall
    split at hcall
    · next he =>
      obtain ⟨rfl, rfl⟩ := Prod.mk.inj hcall
      cases hst : s.threads.loop.async h with
      | mk e tcb =>
        obtain rfl : e = .loopStop := by simpa [hst] using he
        cases tcb with
        | none => rfl
        | some req => cases req <;> rfl
    · next he =>
      split at hcall <;> obtain ⟨rfl, rfl⟩ := Prod.mk.inj hcall
      · next req hreq =>
        cases hst : s.threads.loop.async h with
        | mk e tcb =>
          rw [hst] at he hreq
          obtain rfl : tcb = some req := hreq
          cases req with
          | serverListenStart => simp [Event.asks, nextBody, hst, show e ≠ .loopStop from he]
          | other => simp [Event.asks, nextBody, hst]
      · rfl
  | recycle =>
    simp only [turn] at ht
    split at ht
    · have he := Option.some.inj ht
      unfold recycleAsync at he
      split at he <;> obtain ⟨rfl, rfl⟩ := Prod.mk.inj he <;> rfl
    · contradiction
  | tcbReturn =>
    simp only [turn] at ht
    split at ht
    · obtain ⟨rfl, rfl⟩ := Prod.mk.inj (Option.some.inj ht)
      rfl
    · contradiction
  | skip | newPass | leave | clearRunning =>
    obtain ⟨rfl, rfl⟩ := Prod.mk.inj (Option.some.inj (Option.ite_none_right_eq_some.mp ht).2)
    rfl

theorem quiet_loop {les : List (Uvloop.Event Req)} {e : Event} (he : e ∈ les.map Event.loop) :
    e.Quiet := by
  obtain ⟨l, -, rfl⟩ := List.mem_map.mp he
  exact .inl ⟨l, rfl⟩

theorem Inv.effect (hi : Inv P Q C s) (hs : StepCases s a s' es) : Effect P Q C s s' es := by
  cases hs with
  | request | again | store | register | address | handle | failed =>
    exact .quiet _ _ nofun rfl rfl rfl (List.append_nil _)
  | inside _ b th les call rs ht hb hcall hreq hrs =>
    have hq : ∀ e ∈ les.map Event.loop ++ rs, e.Quiet := by
      intro e he
      rcases List.mem_append.mp he with he | he
      · exact quiet_loop he
      · exact .inr (hrs e he)
    refine .quiet _ _ hq rfl rfl rfl ?_
    have hasks : (les.map Event.loop ++ rs).filterMap Event.asks = [] := by
      rw [List.filterMap_append, asks_of_call ht hb, List.nil_append, List.filterMap_eq_nil_iff]
      intro r hr
      obtain ⟨t, ok, rfl⟩ := hrs r hr
      rfl
    rw [Passes, hasks, filterMap_quiet hq (fun _ => rfl) fun _ _ => rfl]
    exact List.append_nil _
  | unregistered t req hreq he hp =>
    have hr := hi.ready_of_request (he ▸ hreq)
    exact (Bool.false_ne_true (hp.symm.trans hr.ploop)).elim
  | turn b th les hb ht =>
    refine .quiet _ _ (fun e => quiet_loop) rfl rfl rfl ?_
    rw [Passes, asks_of_turn (Threads.turn_cases ht).2,
      filterMap_quiet (fun e => quiet_loop) (fun _ => rfl) fun _ _ => rfl]
    simp [entered, hb]
  | listen lis hb =>
    exact .listen _ lis (by simp [entered, hb]) rfl rfl rfl rfl (hi.asked (.running hb)).addr
  | other e id ini bnd lis hb =>
    refine .quiet _ _ nofun rfl rfl rfl ?_
    simp [Passes, entered, hb]
  | dropped => exact .dropped
  | accepted h status cb hst hl hcb =>
    obtain ⟨c, hc, hC⟩ := (hi.asked (.listens h hl)).connectcb
    obtain rfl := Option.some.inj (hcb.symm.trans hc)
    exact .accepted cb hC
  | empty h status ini hl hcb =>
    obtain ⟨c, hc, -⟩ := (hi.asked (.listens h hl)).connectcb
    exact (Option.some_ne_none c (hc.symm.trans hcb)).elim

theorem effect_of_step (h : serving.Reach (users P Q C) tr s) (hg : users P Q C s a)
    (hs : s.step a = some (s', es)) : Effect P Q C s s' es :=
  (inv_of_reach h).effect (step_cases hg hs).2

theorem dropLast_append_last (l : List ℕ) : l.dropLast ++ l.getLast?.toList = l := by
  cases h : l.getLast? with
  | none => simp [List.getLast?_eq_none_iff.mp h]
  | some x => exact List.dropLast_append_getLast? x h

theorem Handles.effect (hh : Handles tr s) (he : Effect P Q C s s' es) : Handles (tr ++ es) s' := by
  cases he with
  | quiet _ _ hq htcps hlis hserver hpass =>
    have hnil : ∀ {β : Type} {f : Event → Option β}, (∀ e, f (.loop e) = none) →
        (∀ t ok, f (.returned t ok) = none) → (tr ++ es).filterMap f = tr.filterMap f := by
      intro β f hl hr
      rw [List.filterMap_append, filterMap_quiet hq hl hr, List.append_nil]
    constructor
    case served =>
      have hback : Passes Event.asks Event.starts [] tr s.entered := hh.served
      exact hback.trans hpass
    case inited =>
      rw [hnil (fun _ => rfl) fun _ _ => rfl, htcps]
      exact hh.inited
    case fresh =>
      rw [hnil (fun _ => rfl) fun _ _ => rfl, htcps]
      exact hh.fresh
    case freed =>
      rw [hnil (fun _ => rfl) fun _ _ => rfl, hnil (fun _ => rfl) fun _ _ => rfl]
      exact hh.freed
    case last =>
      rw [hnil (fun _ => rfl) fun _ _ => rfl, hserver]
      exact hh.last
    case listens =>
      rw [hnil (fun _ => rfl) fun _ _ => rfl, hlis]
      exact hh.listens
  | listen _ lis hent hent' htcps hserver hlis hloc =>
    have hfree : ∀ {β : Type} {f : Event → Option β}, (∀ h, f (.freed h) = none) →
        (s.listner.server.map Event.freed).toList.filterMap f = [] := by
      intro β f hf
      cases s.listner.server <;> simp [hf]
    constructor
    case served =>
      rw [List.filterMap_append, List.filterMap_append, List.filterMap_append,
        List.filterMap_append, hfree fun _ => rfl, hfree fun _ => rfl, hh.served, hent, hent',
        List.append_nil, List.append_assoc]
      rfl
    case inited =>
      rw [List.filterMap_append, List.filterMap_append, hfree fun _ => rfl, hh.inited, htcps,
        List.range_succ]
      rfl
    case fresh =>
      rw [List.filterMap_append, List.filterMap_append, hfree fun _ => rfl, htcps,
        List.range_succ]
      exact hh.fresh.append (.refl [s.tcps])
    case freed =>
      have hlistening : (tr ++ ((s.listner.server.map Event.freed).toList ++ [Event.tcpInit s.tcps,
          .tcpBind s.tcps s.listner.addr, .tcpListen s.tcps])).filterMap Event.listening =
          tr.filterMap Event.listening ++ [s.tcps] := by
        rw [List.filterMap_append, List.filterMap_append, hfree fun _ => rfl]
        rfl
      have hreleased : (s.listner.server.map Event.freed).toList.filterMap Event.released =
          s.listner.server.toList := by
        cases s.listner.server <;> rfl
      rw [hlistening, List.dropLast_concat, List.filterMap_append, List.filterMap_append,
        hreleased, hh.freed, hh.last]
      refine Eq.trans ?_ (dropLast_append_last _)
      exact congrArg _ (List.append_nil _)
    case last =>
      rw [List.filterMap_append, List.filterMap_append, hfree fun _ => rfl, hserver]
      exact (List.getLast?_concat ..).symm
    case listens =>
      intro h hl
      rw [List.filterMap_append, List.filterMap_append, hfree fun _ => rfl]
      rw [hlis] at hl
      rcases eq_or_ne h s.tcps with rfl | hne
      · exact List.mem_append_right _ (List.mem_singleton_self _)
      · rw [update_of_ne hne] at hl
        exact List.mem_append_left _ (hh.listens h hl)
  | dropped =>
    have hnil : ∀ {β : Type} {f : Event → Option β}, f (.tcpInit s.tcps) = none →
        (tr ++ [Event.tcpInit s.tcps]).filterMap f = tr.filterMap f := by
      intro β f hf
      rw [List.filterMap_append, List.filterMap_cons_none hf, List.filterMap_nil, List.append_nil]
    constructor
    case served =>
      rw [hnil rfl, hnil rfl]
      exact hh.served
    case inited =>
      rw [List.filterMap_append, hh.inited, List.range_succ]
      rfl
    case fresh =>
      rw [hnil rfl, List.range_succ]
      exact hh.fresh.trans (List.sublist_append_left ..)
    case freed =>
      rw [hnil rfl, hnil rfl]
      exact hh.freed
    case last =>
      rw [hnil rfl]
      exact hh.last
    case listens =>
      rw [hnil rfl]
      exact hh.listens
  | accepted cb hcb =>
    have hnil : ∀ {β : Type} {f : Event → Option β}, f (.tcpInit s.tcps) = none →
        f (.newConnection cb s.tcps) = none →
        (tr ++ [Event.tcpInit s.tcps, .newConnection cb s.tcps]).filterMap f = tr.filterMap f := by
      intro β f hf hf'
      rw [List.filterMap_append, List.filterMap_cons_none hf, List.filterMap_cons_none hf',
        List.filterMap_nil, List.append_nil]
    constructor
    case served =>
      rw [hnil rfl rfl, hnil rfl rfl]
      exact hh.served
    case inited =>
      rw [List.filterMap_append, hh.inited, List.range_succ]
      rfl
    case fresh =>
      rw [List.filterMap_append, List.range_succ]
      exact hh.fresh.append (.refl [s.tcps])
    case freed =>
      rw [hnil rfl rfl, hnil rfl rfl]
      exact hh.freed
    case last =>
      rw [hnil rfl rfl]
      exact hh.last
    case listens =>
      rw [hnil rfl rfl]
      exact hh.listens

theorem Handles.lt {x : ℕ} (hh : Handles tr s) (hx : s.listens x = true) : x < s.tcps := by
  obtain ⟨e, he, hl⟩ := List.mem_filterMap.mp (hh.listens x hx)
  have hused : x ∈ tr.filterMap Event.used := by
    refine List.mem_filterMap.mpr ⟨e, he, ?_⟩
    cases e with
    | tcpListen => exact hl
    | _ => contradiction
  exact List.mem_range.mp (hh.fresh.subset hused)

theorem handles_of_reach (h : serving.Reach (users P Q C) tr s) : Handles tr s := by
  refine h.invariant ?_ ?_
  · rintro s ⟨garbage, rfl⟩
    exact ⟨rfl, rfl, .refl [], rfl, rfl, nofun⟩
  · intro tr s a s' es hr hh hg hs
    exact hh.effect (effect_of_step hr hg hs)

structure Listening (P : String → Prop) (Q C : ℕ → Prop) (tr : List Event) (s : TcpServer) :
    Prop extends Handles tr s where
  /-- No assertion fails and no empty callback is called. -/
  sound : s.crashed = false ∧ .fault ∉ tr
  /-- What is bound has been asked for. -/
  bound : ∀ h addr, .tcpBind h addr ∈ tr → Located P Q addr
  /-- A connection goes to a callback that has been brought. -/
  handed : ∀ cb h, .newConnection cb h ∈ tr → C cb
  /-- Also the handles that have been freed go on listening. -/
  kept : ∀ a s' es, users P Q C s a → s.step a = some (s', es) →
    ∀ h, s.listens h = true → s'.listens h = true

def Allowed (P : String → Prop) (Q C : ℕ → Prop) : Event → Prop
  | .fault => False
  | .tcpBind _ addr => Located P Q addr
  | .newConnection cb _ => C cb
  | _ => True

theorem Effect.allowed {e : Event} (h : Effect P Q C s s' es) (he : e ∈ es) : Allowed P Q C e := by
  cases h with
  | quiet _ _ hq =>
    rcases hq e he with ⟨l, rfl⟩ | ⟨t, ok, rfl⟩ <;> trivial
  | listen _ lis hent hent' htcps hserver hlis hloc =>
    cases hserver : s.listner.server <;> simp [hserver] at he
    · rcases he with rfl | rfl | rfl
      · trivial
      · exact hloc
      · trivial
    · rcases he with rfl | rfl | rfl | rfl
      · trivial
      · trivial
      · exact hloc
      · trivial
  | dropped =>
    obtain rfl := List.mem_singleton.mp he
    trivial
  | accepted cb hcb =>
    rcases List.mem_pair.mp he with rfl | rfl
    · trivial
    · exact hcb

theorem allowed_of_reach (h : serving.Reach (users P Q C) tr s) :
    ∀ e ∈ tr, Allowed P Q C e := by
  refine h.invariant (I := fun tr _ => ∀ e ∈ tr, Allowed P Q C e) (by simp) ?_
  intro tr s a s' es hr ih hg hs e he
  rcases List.mem_append.mp he with he | he
  · exact ih e he
  · exact (effect_of_step hr hg hs).allowed he

/-- Every history of a server used through `tcpListen`. -/
theorem listening_of_reach (h : serving.Reach (users P Q C) tr s) : Listening P Q C tr s := by
  have hallowed := allowed_of_reach h
  refine ⟨handles_of_reach h, ⟨(inv_of_reach h).crashed, ?_⟩, ?_, ?_, ?_⟩
  · exact fun he => hallowed _ he
  · exact fun h addr he => hallowed _ he
  · exact fun cb h he => hallowed _ he
  · intro a s' es hg hs x hx
    cases effect_of_step h hg hs with
    | quiet _ _ _ _ hlis => rwa [hlis]
    | listen _ lis _ _ _ _ hlis =>
      rw [hlis]
      rcases eq_or_ne x s.tcps with rfl | hne
      · exact (Nat.lt_irrefl _ ((handles_of_reach h).lt hx)).elim
      · rwa [update_of_ne hne]
    | dropped | accepted => exact hx

/-- A server that listens a second time, and then takes a connection on the handle that it has
freed. -/
theorem listening_of_reach_example : ∃ tr s,
    serving.Reach (users (· = "0.0.0.0") (· = 7) (· = 3)) tr s ∧
      .freed 0 ∈ tr ∧ .newConnection 3 2 ∈ tr ∧ s.listens 0 = true ∧
      Listening (· = "0.0.0.0") (· = 7) (· = 3) tr s := by
  obtain ⟨tr, s, hr, hp⟩ := System.exists_run_of_exec (M := serving)
    (G := users (· = "0.0.0.0") (· = 7) (· = 3)) (s := create fun _ => .loopStop)
    ([.run 1, .setRunning 1] ++
      (List.replicate 2 [Act.request 1 (.tcpListen "0.0.0.0" 7 (some 3)), .configure 1 0,
        .configure 1 0, .configure 1 0, .configure 1 0, .addReq 1, .lock 1]).flatten ++
      [.turn (.fire 0), .perform 0 0 0, .turn .tcbReturn, .turn .recycle,
        .turn (.fire 1), .perform 0 0 0, .turn .tcbReturn, .turn .recycle, .connectionCb 0 0 0 0])
    (p := fun s tr => decide (.freed 0 ∈ tr ∧ .newConnection 3 2 ∈ tr ∧ s.listens 0 = true))
    (by decide +kernel)
  have h : serving.Reach (users (· = "0.0.0.0") (· = 7) (· = 3)) tr s := ⟨_, ⟨_, rfl⟩, hr⟩
  obtain ⟨h₁, h₂, h₃⟩ := of_decide_eq_true hp
  exact ⟨tr, s, h, h₁, h₂, h₃, listening_of_reach h⟩

end UvWrapper.TcpServer
