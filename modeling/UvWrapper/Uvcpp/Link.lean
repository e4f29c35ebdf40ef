import UvWrapper.Uvcpp.Steps

/-! # The life of the connection

`_statusNormal` and `_tcpHandle` are written in three callbacks. In every reachable
state they are what the state of the tcp handle says, so that each step that touches
the connection is a move of one small automaton on these states.
-/

namespace UvWrapper.Uvcpp

open Transition

variable {s s' s'' : Uvcpp} {a : Act} {es tr tr' : List Event} {n status nread err : ℤ}
  {G : Uvcpp → Act → Prop} {st st' : TcpState}

/-- `_statusNormal` holds exactly of a connected handle, and `_tcpHandle` is null until
a connect callback has run and again after the close callback. -/
def LinkOk (s : Uvcpp) : Prop :=
  match s.tcp with
  | .raw | .inited | .connecting | .closed => s.statusNormal = false ∧ s.tcpHandle = false
  | .connected => s.statusNormal = true ∧ s.tcpHandle = true
  | .refused | .closing => s.statusNormal = false ∧ s.tcpHandle = true

theorem LinkOk.normal_iff (h : s.LinkOk) : s.statusNormal = true ↔ s.tcp = .connected := by
  cases ht : s.tcp <;> simp only [LinkOk, ht] at h <;> simp [h.1]

theorem LinkOk.handle_of_closing (h : s.LinkOk) (ht : s.tcp = .closing) :
    s.tcpHandle = true := by
  simp only [LinkOk, ht] at h
  exact h.2

theorem LinkOk.handle_of_connected (h : s.LinkOk) (ht : s.tcp = .connected) :
    s.tcpHandle = true := by
  simp only [LinkOk, ht] at h
  exact h.2

def Event.isLink : Event → Bool
  | .tcpInit _ | .tcpConnect _ | .connectCb _ | .uvClose _ _ => true
  | _ => false

/-- What a step does to the connection, with its events. -/
inductive LinkMove (s : Uvcpp) : Act → TcpState → List Event → Prop
  | stay (a : Act) : (∀ err, a ≠ .closeCb err) → (∀ status, a ≠ .connectCb status) →
      LinkMove s a s.tcp []
  | dial (host : String) (port : ℕ) (err : ℤ) : s.point = .down →
      LinkMove s (.connect host port err) (if err = 0 then .connecting else .inited)
        [.tcpInit s.tcp, .tcpConnect (some (host, port))]
  | established : s.tcp = .connecting →
      LinkMove s (.connectCb 0) .connected [.connectCb 0]
  | refused (status : ℤ) : s.tcp = .connecting → status ≠ 0 →
      LinkMove s (.connectCb status) .refused [.connectCb status]
  | close (a : Act) : s.tcp = .connected → (∀ err, a ≠ .closeCb err) →
      (∀ status, a ≠ .connectCb status) → LinkMove s a .closing [.uvClose true .connected]
  | closed (err : ℤ) : s.tcp = .closing → (s.autoReconnect && !s.exStopLoop) = false →
      LinkMove s (.closeCb err) .closed []
  | redial (err : ℤ) : s.tcp = .closing → (s.autoReconnect && !s.exStopLoop) = true →
      LinkMove s (.closeCb err) (if err = 0 then .connecting else .inited)
        [.tcpInit .closed, .tcpConnect s.addr]

theorem LinkOk.innerClose (h : s.LinkOk) :
    s.innerClose.1.LinkOk ∧
      ((s.tcp = .connected ∧ s.innerClose.1.tcp = .closing ∧
          s.innerClose.2.filter Event.isLink = [.uvClose true .connected]) ∨
        (s.tcp ≠ .connected ∧ s.innerClose.1.tcp = s.tcp ∧
          s.innerClose.2.filter Event.isLink = [])) := by
  rcases eq_or_ne s.tcp .connected with ht | ht
  · have hn := h.normal_iff.mpr ht
    have hh := h.handle_of_connected ht
    have he : s.innerClose = ({ s with
        statusNormal := false, tcpData := true, tcp := .closing },
        [.innerClose, .uvClose true .connected]) := by
      simp [Uvcpp.innerClose, hn, hh, ht]
    rw [he]
    exact ⟨⟨rfl, hh⟩, .inl ⟨ht, rfl, rfl⟩⟩
  · have hn : s.statusNormal = false := by simpa using fun e => ht (h.normal_iff.mp e)
    have he : s.innerClose = (s, [.innerClose]) := by simp [Uvcpp.innerClose, hn]
    rw [he]
    exact ⟨h, .inr ⟨ht, rfl, rfl⟩⟩

theorem filter_write (s : Uvcpp) (n : ℤ) : (s.write n).2.filter Event.isLink = [] := by
  unfold write
  split
  · rfl
  · dsimp only; split <;> rfl

theorem LinkOk.connected (h : s.LinkOk) (ht : s.tcp = .connecting) :
    (s.connected status).1.LinkOk ∧ s.LinkMove (.connectCb status) (s.connected status).1.tcp
      ((s.connected status).2.filter Event.isLink) := by
  simp only [LinkOk, ht] at h
  rcases eq_or_ne status 0 with rfl | hs
  · exact ⟨⟨rfl, rfl⟩, .established ht⟩
  · have he : s.connected status = ({ s with tcpHandle := true, tcp := .refused },
        [.castConn s.connData, .connectCb status, .innerClose]) := by
      simp [Uvcpp.connected, hs, Uvcpp.innerClose, h.1]
    rw [he]
    exact ⟨⟨h.1, rfl⟩, .refused status ht hs⟩

theorem LinkOk.closed (h : s.LinkOk) (ht : s.tcp = .closing) :
    (s.closed err).1.LinkOk ∧ s.LinkMove (.closeCb err) (s.closed err).1.tcp
      ((s.closed err).2.filter Event.isLink) := by
  have hh := h.handle_of_closing ht
  simp only [LinkOk, ht] at h
  cases hc : s.autoReconnect && !s.exStopLoop with
  | false =>
    have he : s.closed err = ({ s with tcp := .closed, tcpHandle := false },
        [.castTcp s.tcpData]) := by
      simp only [Uvcpp.closed, hh, hc, if_true, Bool.false_eq_true, if_false]
    rw [he]
    exact ⟨⟨h.1, rfl⟩, .closed err ht hc⟩
  | true =>
    have he : s.closed err =
        ({ s with
            tcp := if err = 0 then .connecting else .inited
            tcpHandle := false
            connData := true },
          [.castTcp s.tcpData, .tcpInit .closed, .tcpConnect s.addr]) := by
      simp only [Uvcpp.closed, hh, hc, if_true, Uvcpp.connect]
    rw [he]
    refine ⟨?_, .redial err ht hc⟩
    by_cases hz : err = 0 <;> simp [LinkOk, hz, h.1]

theorem LinkOk.readDone (h : s.LinkOk) (ht : s.tcp = .connected) :
    (s.readDone nread).1.LinkOk ∧ s.LinkMove (.readCb nread) (s.readDone nread).1.tcp
      ((s.readDone nread).2.filter Event.isLink) := by
  rcases lt_or_ge nread 0 with hn | hn
  · obtain ⟨hok, hc⟩ := h.innerClose
    simp only [Uvcpp.readDone, if_pos hn, List.filter_append]
    refine ⟨hok, ?_⟩
    rcases hc with ⟨-, ht', he⟩ | ⟨hne, -, -⟩
    · rw [ht', he]
      exact .close _ ht nofun nofun
    · exact (hne ht).elim
  · simp only [Uvcpp.readDone, if_neg (not_lt.mpr hn)]
    split <;> exact ⟨h, .stay _ nofun nofun⟩

theorem LinkOk.process {ev : EventType} {rest : List EventType} (h : s.LinkOk) :
    (s.process ev rest n).1.LinkOk ∧ s.LinkMove (.process n) (s.process ev rest n).1.tcp
      ((s.process ev rest n).2.filter Event.isLink) := by
  have hc : ∀ err, Act.process n ≠ .closeCb err := by simp
  have hn : ∀ status, Act.process n ≠ .connectCb status := by simp
  cases ev with
  | send =>
    simp only [Uvcpp.process, filter_write]
    rw [write_frame]
    exact ⟨h, .stay _ hc hn⟩
  | null => exact ⟨h, .stay _ hc hn⟩
  | closeConn =>
    have hp : LinkOk { s with point := .polling } := h
    obtain ⟨hok, ⟨ht, ht', he⟩ | ⟨-, ht', he⟩⟩ := hp.innerClose
    · simp only [Uvcpp.process, ht', he]
      exact ⟨hok, .close _ ht hc hn⟩
    · simp only [Uvcpp.process, ht', he]
      exact ⟨hok, .stay _ hc hn⟩
  | stopLoop =>
    have hp : LinkOk { s with point := .polling } := h
    obtain ⟨hok, hclose⟩ := hp.innerClose
    have hes : ({ s with point := .polling } : Uvcpp).innerStop.2.filter Event.isLink =
        ({ s with point := .polling } : Uvcpp).innerClose.2.filter Event.isLink := rfl
    simp only [Uvcpp.process, hes]
    rw [innerStop_frame]
    refine ⟨hok, ?_⟩
    rcases hclose with ⟨ht, ht', he⟩ | ⟨-, ht', he⟩
    · rw [he]
      simp only [ht']
      exact .close _ ht hc hn
    · rw [he]
      simp only [ht']
      exact .stay _ hc hn

/-- The flags agree with the handle, and before `run` there is no connection. -/
structure LinkInv (s : Uvcpp) : Prop where
  ok : s.LinkOk
  down : s.point = .down → s.statusNormal = false ∧ s.tcpHandle = false

theorem StepCases.down (h : StepCases s a s' es) (hd : s'.point = .down) :
    (∃ host port err, a = .connect host port err) ∨
      s'.statusNormal = s.statusNormal ∧ s'.tcpHandle = s.tcpHandle := by
  have hp := h.frame.down hd
  cases h with
  | connect host port err => exact .inl ⟨host, port, err, rfl⟩
  | setAutoReconnect | insert | asyncSend => exact .inr ⟨rfl, rfl⟩
  | run => cases hd
  | append _ _ _ _ hn | close _ hn | stop _ hn => exact (hn hp).elim
  | asyncEnter h' | swap h' | process _ _ _ h' | asyncReturn h' | connectCb _ h' | readCb _ h'
  | closeCb _ h' | asyncCloseCb h' | leave h' => cases hp.symm.trans h'

theorem LinkInv.step (h : s.LinkInv) (hs : s.step a = some (s', es)) :
    s'.LinkInv ∧ s.LinkMove a s'.tcp (es.filter Event.isLink) := by
  have hc := step_cases hs
  suffices hm : s'.LinkOk ∧ s.LinkMove a s'.tcp (es.filter Event.isLink) by
    refine ⟨⟨hm.1, fun hd => ?_⟩, hm.2⟩
    have hp := hc.frame.down hd
    obtain ⟨host, port, err, rfl⟩ | ⟨hn, hh⟩ := hc.down hd
    · cases hc
      exact h.down hp
    · rw [hn, hh]
      exact h.down hp
  cases hc with
  | connect host port err hp =>
    refine ⟨?_, .dial host port err hp⟩
    obtain ⟨hn, hh⟩ := h.down hp
    by_cases hz : err = 0 <;> simp [LinkOk, connect, hz, hn, hh]
  | append t buf re ma =>
    rw [append_frame]
    exact ⟨h.ok, .stay _ nofun nofun⟩
  | process ev rest n hp => exact h.ok.process
  | connectCb status _ ht => exact h.ok.connected ht
  | readCb nread _ ht => exact h.ok.readDone ht
  | closeCb err _ ht => exact h.ok.closed ht
  | _ => exact ⟨h.ok, .stay _ nofun nofun⟩

theorem linkInv_of_reach (h : client.Reach G tr s) : s.LinkInv := by
  refine h.stateInvariant (I := LinkInv) ?_ fun _ s a s' es _ hi _ hs => (hi.step hs).1
  rintro s ⟨blk, -, rfl⟩
  exact ⟨⟨rfl, rfl⟩, fun _ => ⟨rfl, rfl⟩⟩

/-! ## The automaton of the handle -/

structure Running (s : Uvcpp) : Prop where
  link : s.LinkInv
  started : s.point ≠ .down

/-- What the client does with its tcp handle once it runs, with everything else left
out: the only way back to a connection leads through a close. -/
inductive Life : TcpState → TcpState → Prop
  | establish : Life .connecting .connected
  | refuse : Life .connecting .refused
  | close : Life .connected .closing
  | finish : Life .closing .closed
  | redial : Life .closing .connecting
  | failRedial : Life .closing .inited

theorem Running.step (h : s.Running) (hs : s.step a = some (s', es)) : s'.Running :=
  ⟨(h.link.step hs).1, fun hd => h.started ((step_cases hs).frame.down hd)⟩

theorem Running.run (h : s.Running) (hr : client.Run G s tr s') : s'.Running :=
  hr.stateInvariant (I := Running) h fun _ _ _ _ hi _ hs => hi.step hs

/-- The running client refines the automaton of its handle. -/
theorem refines_life : client.Refines (anyStep Uvcpp Act) Running (·.tcp) Life := by
  intro s a s' es h _ hs
  refine ⟨h.step hs, ?_⟩
  obtain ⟨-, hm⟩ := h.link.step hs
  show s'.tcp = s.tcp ∨ Life s.tcp s'.tcp
  generalize s'.tcp = st', es.filter Event.isLink = fs at hm
  cases hm with
  | stay => exact .inl rfl
  | dial _ _ _ hp => exact (h.started hp).elim
  | established ht => rw [ht]; exact .inr .establish
  | refused _ ht => rw [ht]; exact .inr .refuse
  | close _ ht => rw [ht]; exact .inr .close
  | closed _ ht => rw [ht]; exact .inr .finish
  | redial err ht =>
    rw [ht]
    split
    · exact .inr .redial
    · exact .inr .failRedial

def Final (st : TcpState) : Prop := st = .refused ∨ st = .inited ∨ st = .closed

theorem Life.not_final (h : Life st st') : ¬ Final st := by
  cases h <;> simp [Final]

theorem final_stays (hf : Final st) (h : Relation.ReflTransGen Life st st') : st' = st := by
  induction h with
  | refl => rfl
  | tail _ hl ih => exact (hl.not_final (ih ▸ hf)).elim

end UvWrapper.Uvcpp
