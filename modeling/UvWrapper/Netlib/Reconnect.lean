import UvWrapper.Netlib.Steps

/-! # Reconnecting the socket

`net_reConnect` closes the socket or dials again, as `m_btcpClosed` says, which `close_cb`
sets and a successful `connect_cb` clears. In between, while a `uv_close` or a connect request
is outstanding and after a request that failed, the flag does not tell what has happened, and
the call goes to a handle that is not ready for it.
-/

namespace UvWrapper.Netlibuv

open Function Transition

variable {w : ℕ} {s s' : Netlibuv} {a : Act} {es tr : List Event} {err : ℤ}

/-- What happens to the connection: the two calls, the two results, and the close callback. -/
inductive Mark
  | connect | reconnect | succeeded | failed | closed
  deriving DecidableEq

def markOf : Event → Option Mark
  | .netConnect => some .connect
  | .netReConnect => some .reconnect
  | .connectCb status => some (if status = 0 then .succeeded else .failed)
  | .closeCb => some .closed
  | _ => none

abbrev history (w : ℕ) : System (Netlibuv × List Mark) Act Event :=
  (netlib w).observed [] fun _ _ es past => past ++ es.filterMap markOf

variable {p p' : Netlibuv × List Mark}

/-- `net_Connect` is called once, then `net_reConnect`, and nothing else closes the socket. -/
def protocol (p : Netlibuv × List Mark) : Act → Prop
  | .netConnect _ => p.2 = []
  | .netReConnect _ => p.2 ≠ []
  | .netCloseConnection => False
  | _ => True

instance : DecidableRel protocol := fun p a =>
  match a with
  | .netConnect _ => inferInstanceAs (Decidable (p.2 = []))
  | .netReConnect _ => inferInstanceAs (Decidable (p.2 ≠ []))
  | .netCloseConnection => .isFalse id
  | .netAsyncSend .. | .netSend .. | .takeSend .. | .fill .. | .write .. | .asyncEnter _
  | .asyncReturn | .writeCb .. | .connectCb _ | .readCb _ | .closeCb => .isTrue trivial

/-- libuv is asked to close an open handle, and to initialise and connect one whose previous
use is over, with no connect request outstanding. -/
def Event.Respects : Event → Prop
  | .uvClose handle st => handle = true ∧ st.isOpen = true
  | .tcpInit st outstanding => st = .closed ∧ outstanding = false
  | .tcpConnect st outstanding => st = .inited ∧ outstanding = false
  | _ => True

/-- In the runs whose steps satisfy `G` the life cycle of the socket is respected. -/
def SocketRespected (w : ℕ) (G : Netlibuv × List Mark → Act → Prop) : Prop :=
  ∀ tr p, (history w).Reach G tr p → ∀ e ∈ tr, e.Respects

/-- The latest thing that happened is a successful connect, a close callback, or the failure
of the very first connect. -/
def Ready (past : List Mark) : Prop :=
  past.getLast? = some .succeeded ∨ past.getLast? = some .closed ∨ past = [.connect, .failed]

def callsWhenReady (p : Netlibuv × List Mark) : Act → Prop
  | .netReConnect _ => Ready p.2
  | _ => True

/-- What the past says of `m_ptcpHandle`, `m_btcpClosed`, the handle and `m_connect`, as long
as `net_reConnect` is called when ready. -/
inductive Phase : List Mark → Bool → Bool → TcpState → Bool → Prop
  | fresh : Phase [] false false .inited false
  | dialing : Phase [.connect] false false .connecting true
  | refusedFirst : Phase [.connect, .failed] true false .refused false
  | connected (past : List Mark) : past.getLast? = some .succeeded →
      Phase past true false .connected false
  | closing (past : List Mark) : past.getLast? = some .reconnect →
      Phase past true false .closing false
  | closed (past : List Mark) : past.getLast? = some .closed → Phase past true true .closed false
  | redialing (past : List Mark) : past.getLast? = some .reconnect →
      Phase past true true .connecting true
  | unopened (past : List Mark) : past.getLast? = some .reconnect →
      Phase past true true .inited false
  | refused (past : List Mark) : past.getLast? = some .failed → past ≠ [.connect, .failed] →
      Phase past true true .refused false

def PhaseInv (p : Netlibuv × List Mark) : Prop :=
  p.1.down = false → Phase p.2 p.1.ptcpHandle p.1.btcpClosed p.1.socktcp p.1.connecting

structure SocketKept (s : Netlibuv) (es : List Event) (s' : Netlibuv) : Prop where
  ptcpHandle : s'.ptcpHandle = s.ptcpHandle
  btcpClosed : s'.btcpClosed = s.btcpClosed
  socktcp : s'.socktcp = s.socktcp
  connecting : s'.connecting = s.connecting
  events : ∀ e ∈ es, markOf e = none ∧ e.Respects

theorem StepCases.socket_or_kept (h : StepCases w s a s' es) :
    SocketCases s a s' es ∨ SocketKept s es s' := by
  cases h with
  | socket a s' es hc => exact .inl hc
  | obtained t ma p r s₁ _ ht =>
    rw [takeSend_frame ht]
    exact .inr ⟨rfl, rfl, rfl, rfl, by simp [markOf, Event.Respects]⟩
  | _ => exact .inr ⟨rfl, rfl, rfl, rfl, by simp [markOf, Event.Respects]⟩

section Phases

variable {past : List Mark} {handle flag outstanding : Bool} {st : TcpState}

theorem Phase.of_nil (h : Phase [] handle flag st outstanding) :
    handle = false ∧ flag = false ∧ st = .inited ∧ outstanding = false := by
  cases h with
  | fresh => exact ⟨rfl, rfl, rfl, rfl⟩
  | connected _ hl | closing _ hl | closed _ hl | redialing _ hl | unopened _ hl
  | refused _ hl => simp at hl

theorem Phase.of_ready (h : Phase past handle flag st outstanding) (hr : Ready past) :
    (flag = false ∧ handle = true ∧ st.isOpen = true ∧ outstanding = false) ∨
      (flag = true ∧ handle = true ∧ st = .closed ∧ outstanding = false) := by
  cases h with
  | fresh | dialing => simp [Ready] at hr
  | refusedFirst | connected => exact .inl ⟨rfl, rfl, rfl, rfl⟩
  | closed => exact .inr ⟨rfl, rfl, rfl, rfl⟩
  | closing _ hl | redialing _ hl | unopened _ hl =>
    rcases hr with hr | hr | rfl
    · cases hl.symm.trans hr
    · cases hl.symm.trans hr
    · cases hl
  | refused _ hl hne =>
    rcases hr with hr | hr | hr
    · cases hl.symm.trans hr
    · cases hl.symm.trans hr
    · exact (hne hr).elim

theorem Phase.of_not_ready (h : Phase past handle flag st outstanding) (hne : past ≠ [])
    (hr : ¬ Ready past) : (flag = false ∧ ¬ (handle = true ∧ st.isOpen = true)) ∨
      (flag = true ∧ ¬ (st = .closed ∧ outstanding = false)) := by
  cases h with
  | fresh => exact (hne rfl).elim
  | dialing | closing => exact .inl ⟨rfl, by decide⟩
  | redialing | unopened | refused => exact .inr ⟨rfl, by decide⟩
  | refusedFirst => exact (hr (.inr (.inr rfl))).elim
  | connected _ hl => exact (hr (.inl hl)).elim
  | closed _ hl => exact (hr (.inr (.inl hl))).elim

theorem Phase.fail (h : Phase past handle flag .connecting outstanding) :
    Phase (past ++ [.failed]) true flag .refused false := by
  cases h with
  | dialing => exact .refusedFirst
  | redialing _ hl =>
    apply Phase.refused _ (List.getLast?_concat ..)
    intro he
    have happ : past ++ [Mark.failed] = [Mark.connect] ++ [Mark.failed] := he
    obtain ⟨rfl, -⟩ := List.append_inj' happ rfl
    cases hl

theorem Phase.of_closing (h : Phase past handle flag .closing outstanding) :
    handle = true ∧ outstanding = false := by
  cases h
  exact ⟨rfl, rfl⟩

end Phases

/-- A call that is made when ready, and everything else, respects the life cycle and leads
from phase to phase. -/
theorem SocketCases.phase {past : List Mark} (hc : SocketCases s a s' es)
    (hp : Phase past s.ptcpHandle s.btcpClosed s.socktcp s.connecting)
    (hpr : protocol (s, past) a) (hr : callsWhenReady (s, past) a) :
    (∀ e ∈ es, e.Respects) ∧ PhaseInv (s', past ++ es.filterMap markOf) := by
  cases hc with
  | connecting =>
    obtain rfl : past = [] := hpr
    obtain ⟨hh, hf, hs, ho⟩ := hp.of_nil
    refine ⟨by simp [Event.Respects, hs, ho], fun _ => ?_⟩
    simpa [hh, hf, markOf, List.filterMap_cons] using Phase.dialing
  | connectFault err =>
    obtain rfl : past = [] := hpr
    obtain ⟨-, -, hs, ho⟩ := hp.of_nil
    exact ⟨by simp [Event.Respects, hs, ho], fun hd => by cases hd⟩
  | closing err hf hh =>
    rcases hp.of_ready hr with ⟨-, -, ho, hk⟩ | ⟨hf', -⟩
    · refine ⟨by simp [Event.Respects, hh, ho], fun _ => ?_⟩
      simpa [hh, hf, hk, markOf, List.filterMap_cons] using
        Phase.closing _ (List.getLast?_concat ..)
    · cases hf.symm.trans hf'
  | closeFault err hf hh =>
    rcases hp.of_ready hr with ⟨-, hh', -⟩ | ⟨hf', -⟩
    · cases hh.symm.trans hh'
    · cases hf.symm.trans hf'
  | reconnecting hf =>
    rcases hp.of_ready hr with ⟨hf', -⟩ | ⟨-, hh, hs, hk⟩
    · cases hf.symm.trans hf'
    · refine ⟨by simp [Event.Respects, hs, hk], fun _ => ?_⟩
      simpa [hh, hf, markOf, List.filterMap_cons] using Phase.redialing _ (List.getLast?_concat ..)
  | reconnectFailed err hf =>
    rcases hp.of_ready hr with ⟨hf', -⟩ | ⟨-, hh, hs, hk⟩
    · cases hf.symm.trans hf'
    · refine ⟨by simp [Event.Respects, hs, hk], fun _ => ?_⟩
      simpa [hh, hf, hk, markOf, List.filterMap_cons] using
        Phase.unopened _ (List.getLast?_concat ..)
  | closeConnection | closeConnectionFault => exact hpr.elim
  | connected =>
    refine ⟨by simp [Event.Respects], fun _ => ?_⟩
    simpa [markOf, List.filterMap_cons] using Phase.connected _ (List.getLast?_concat ..)
  | refused status hs ho ht =>
    rw [ht] at hp
    refine ⟨by simp [Event.Respects], fun _ => ?_⟩
    simpa [markOf, hs, List.filterMap_cons] using hp.fail
  | cancelled status hs ho ht =>
    rw [ht, ho] at hp
    cases hp.of_closing.2
  | readFailed | read =>
    refine ⟨by simp [Event.Respects], fun _ => ?_⟩
    simpa [markOf, List.filterMap_cons] using hp
  | closed ht ho =>
    rw [ht] at hp
    refine ⟨by simp [Event.Respects], fun _ => ?_⟩
    simpa [markOf, hp.of_closing.1, ho, List.filterMap_cons] using
      Phase.closed _ (List.getLast?_concat ..)

theorem down_of_step (hs : s.step w a = some (s', es)) : s.down = false := by
  unfold step at hs
  split at hs
  · contradiction
  · next hd => exact Bool.not_eq_true _ ▸ hd

theorem PhaseInv.step (hi : PhaseInv p) (hpr : protocol p a) (hr : callsWhenReady p a)
    (hs : (history w).step p a = some (p', es)) : (∀ e ∈ es, e.Respects) ∧ PhaseInv p' := by
  obtain ⟨hs, hn⟩ := System.observed_step.mp hs
  have hp := hi (down_of_step hs)
  obtain ⟨s', past⟩ := p'
  obtain rfl : past = _ := hn
  rcases (step_cases hs).socket_or_kept with hc | hk
  · exact hc.phase hp hpr hr
  · have hm : es.filterMap markOf = [] :=
      List.filterMap_eq_nil_iff.mpr fun e he => (hk.events e he).1
    refine ⟨fun e he => (hk.events e he).2, fun _ => ?_⟩
    dsimp only
    rwa [hm, List.append_nil, hk.ptcpHandle, hk.btcpClosed, hk.socktcp, hk.connecting]

theorem phaseInv_init (h : (history w).init p) : PhaseInv p := by
  obtain ⟨s, past⟩ := p
  obtain ⟨⟨send, asyncSend, -, rfl⟩, rfl⟩ := h
  exact fun _ => .fresh

theorem not_respects {past : List Mark} (hc : SocketCases s (.netReConnect err) s' es)
    (hp : Phase past s.ptcpHandle s.btcpClosed s.socktcp s.connecting) (hne : past ≠ [])
    (hr : ¬ Ready past) : ∃ e ∈ es, ¬ e.Respects := by
  have hbad := hp.of_not_ready hne hr
  cases hc with
  | closing _ hf | closeFault _ hf =>
    rcases hbad with ⟨-, hb⟩ | ⟨hf', -⟩
    · exact ⟨.uvClose s.ptcpHandle s.socktcp, by simp, hb⟩
    · cases hf.symm.trans hf'
  | reconnecting hf | reconnectFailed _ hf =>
    rcases hbad with ⟨hf', -⟩ | ⟨-, hb⟩
    · cases hf.symm.trans hf'
    · exact ⟨.tcpInit s.socktcp s.connecting, by simp, hb⟩

theorem callsWhenReady_of_respects (hi : PhaseInv p) (hpr : protocol p a)
    (hs : p.1.step w a = some (s', es)) (he : ∀ e ∈ es, e.Respects) : callsWhenReady p a := by
  cases a with
  | netReConnect err =>
    by_contra hr
    have hp := hi (down_of_step hs)
    rcases (step_cases hs).socket_or_kept with hc | hk
    · obtain ⟨e, hm, hbad⟩ := not_respects hc hp hpr hr
      exact hbad (he e hm)
    · cases step_cases hs with
      | socket a s' es hc =>
        obtain ⟨e, hm, hbad⟩ := not_respects hc hp hpr hr
        exact hbad (he e hm)
  | _ => trivial

/-- As long as every event respects the life cycle, the past tells the phase. -/
theorem phaseInv_of_respected {G : Netlibuv × List Mark → Act → Prop}
    (h : (history w).Reach (fun p a => G p a ∧ protocol p a) tr p)
    (he : ∀ e ∈ tr, e.Respects) : PhaseInv p := by
  refine h.invariant (I := fun tr p => (∀ e ∈ tr, e.Respects) → PhaseInv p)
    (fun p hp _ => phaseInv_init hp) ?_ he
  intro tr p a p' es _ hi hg hs he
  obtain ⟨htr, hes⟩ := List.forall_mem_append.mp he
  have hp := hi htr
  have hr := callsWhenReady_of_respects hp hg.2 (System.observed_step.mp hs).1 hes
  exact (hp.step hg.2 hr hs).2

/-- The life cycle is respected in the runs of `G` exactly if in them `net_reConnect` is
called only when the latest thing that happened to the connection is a successful connect, a
close callback, or the failure of the very first connect. -/
theorem socketRespected_iff (w : ℕ) (G : Netlibuv × List Mark → Act → Prop) :
    SocketRespected w (fun p a => G p a ∧ protocol p a) ↔
      (history w).Always (fun p a => G p a ∧ protocol p a) callsWhenReady := by
  constructor
  · intro hok tr p a p' es hr hg hs
    have hp := phaseInv_of_respected hr (hok tr p hr)
    have hes := hok _ _ (hr.step hg hs)
    exact callsWhenReady_of_respects hp hg.2 (System.observed_step.mp hs).1
      (List.forall_mem_append.mp hes).2
  · intro hready tr p hr
    have hI : (∀ e ∈ tr, e.Respects) ∧ PhaseInv p := by
      refine hr.invariant (I := fun tr p => (∀ e ∈ tr, e.Respects) ∧ PhaseInv p)
        (fun p hp => ⟨by simp, phaseInv_init hp⟩) ?_
      rintro tr p a p' es hr ⟨he, hi⟩ hg hs
      obtain ⟨he', hi'⟩ := hi.step hg.2 (hready tr p a p' es hr hg hs) hs
      exact ⟨List.forall_mem_append.mpr ⟨he, he'⟩, hi'⟩
    exact hI.1

/-- The reconnect timer fires before the first connect has a result. -/
theorem not_socketRespected : ¬ SocketRespected 64 protocol := by
  obtain ⟨tr, p, hr, hp⟩ := System.exists_run_of_exec (M := history 64) (G := protocol)
    (s := (fresh, [])) [.netConnect 0, .netReConnect 0]
    (p := fun _ tr => decide (.uvClose false .connecting ∈ tr)) (by decide +kernel)
  intro h
  have hbad := h tr p ⟨(fresh, []), ⟨init_fresh, rfl⟩, hr⟩ _ (of_decide_eq_true hp)
  exact Bool.false_ne_true hbad.1

end UvWrapper.Netlibuv
