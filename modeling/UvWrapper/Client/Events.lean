import UvWrapper.Client.Basic
import UvWrapper.Connect.Client

/-! # What a client comes to see

`TcpClient` has `ConnectToServer` and `WriteData`, and its connection is its own. Nobody starts
to read on it and nobody closes it, so that its handler hears of connecting and of writing and
of nothing else: not of data, and not of the end of the stream.
-/

namespace UvWrapper.TcpClient

open Function Transition Uvconnect

variable {w : ℕ} {s s' : TcpClient} {a : Act} {es tr : List Uvconnect.Event} {t : ℕ}
  {G : TcpClient → Act → Prop} {H : Uvconnect → Uvconnect.Act → Prop}

def onConn (H : Uvconnect → Uvconnect.Act → Prop) (s : TcpClient) : Act → Prop
  | .conn b => H s.conn b
  | _ => True

instance [∀ u, DecidablePred (H u)] (s : TcpClient) : DecidablePred (onConn H s) := fun a =>
  match a with
  | .conn b => inferInstanceAs (Decidable (H s.conn b))
  | .connectToServer _ _ _ _ | .run _ | .setRunning _ | .next _ => .isTrue trivial

theorem opens.clientSide {b : Uvconnect.Act} (ho : s.opens b) : clientSide s.conn b := by
  cases b with
  | registerloopAndStream | request => exact ho.elim
  | _ => trivial

theorem Passage.clientSide {b : Uvconnect.Act} {c c' : Caller} (hp : Passage t b c c')
    (u : Uvconnect) : clientSide u b := by
  cases hp <;> trivial

theorem clientSide_of_reach (hH : ∀ u t b c c', Passage t b c c' → H u b)
    (h : (client w).Reach (onConn H) tr s) :
    (connection w).Reach (fun u b => clientSide u b ∧ H u b) tr s.conn := by
  apply h.invariant
    (I := fun tr s => (connection w).Reach (fun u b => clientSide u b ∧ H u b) tr s.conn)
  · rintro s ⟨garbage, send, rfl⟩
    exact .start ⟨garbage, send, rfl⟩
  · intro tr s a s' es _ hr hg hs
    cases step_cases hs with
    | aside =>
      rw [List.append_nil]
      exact hr
    | passage _ t b c conn es hp hb => exact hr.step ⟨hp.clientSide _, hH _ t b _ c hp⟩ hb
    | conn b conn es ho hb => exact hr.step ⟨ho.clientSide, hg⟩ hb

/-! ## The loop is registered first -/

/-- The places in `ConnectToServer` behind `RegisterConnect`. -/
def Caller.registered : Caller → Bool
  | .handling _ _ _ | .connecting _ _ | .asking _ _ => true
  | _ => false

theorem registered_update {c : Caller} {u : ℕ}
    (hc : c.registered = false ∨ (s.call u).registered = true)
    (h : (update s.call u c t).registered = true) : (s.call t).registered = true := by
  rcases eq_or_ne t u with rfl | htu
  · rw [update_self] at h
    exact hc.resolve_left fun hf => Bool.false_ne_true (hf.symm.trans h)
  · rwa [update_of_ne htu] at h

theorem through_step {b : Uvconnect.Act} {u : ℕ} {c : Caller}
    (hs : s.through w b u c = some (s', es)) :
    s'.call = update s.call u c ∧ s.conn.step w b = some (s'.conn, es) := by
  obtain ⟨⟨conn, fs⟩, hb, he⟩ := Option.map_eq_some_iff.mp hs
  obtain ⟨rfl, rfl⟩ := Prod.mk.inj he
  exact ⟨rfl, hb⟩

theorem registered_leave {conn : Uvconnect} {b : Uvconnect.Act}
    (h : (s.leave conn b t).registered = true) : (s.call t).registered = true := by
  have hthread : ∀ u, ((if conn.Idle u then update s.call u .idle else s.call) t).registered =
      true → (s.call t).registered = true := by
    intro u hu
    split at hu
    · exact registered_update (.inl rfl) hu
    · exact hu
  cases b with
  | addReq u | lock u => exact hthread u h
  | _ => exact h

theorem registered_of_step (hs : s.step w a = some (s', es))
    (h : (s'.call t).registered = true) :
    (s.call t).registered = true ∨ s'.conn.ploop = true := by
  obtain ⟨-, hs⟩ := Option.ite_none_left_eq_some.mp hs
  cases a with
  | connectToServer u ip port b =>
    obtain ⟨-, hs⟩ := Option.ite_none_right_eq_some.mp hs
    obtain ⟨rfl, -⟩ := Prod.mk.inj (Option.some.inj hs)
    refine .inl (registered_update (.inl ?_) h)
    split <;> rfl
  | run u =>
    dsimp only at hs
    split at hs
    · split at hs
      · obtain ⟨rfl, -⟩ := Prod.mk.inj (Option.some.inj hs)
        exact .inl (registered_update (.inl rfl) h)
      · rw [(through_step hs).1] at h
        exact .inl (registered_update (.inl rfl) h)
    · contradiction
  | setRunning u =>
    dsimp only at hs
    split at hs
    · rw [(through_step hs).1] at h
      exact .inl (registered_update (.inl rfl) h)
    · contradiction
  | next u =>
    dsimp only [next] at hs
    split at hs
    · exact .inr (ploop_of_register (through_step hs).2)
    · next hc =>
      rw [(through_step hs).1] at h
      exact .inl (registered_update (.inr (by rw [hc]; rfl)) h)
    · next hc =>
      rw [(through_step hs).1] at h
      exact .inl (registered_update (.inr (by rw [hc]; rfl)) h)
    · contradiction
  | conn b =>
    obtain ⟨-, hs⟩ := Option.ite_none_right_eq_some.mp hs
    obtain ⟨p, -, he⟩ := Option.map_eq_some_iff.mp hs
    obtain ⟨rfl, -⟩ := Prod.mk.inj he
    exact .inl (registered_leave h)

def Unregistered (s : TcpClient) : Prop :=
  (∀ t, (s.call t).registered = false) ∧ s.conn.Untouched

theorem Passage.request {b : Uvconnect.Act} {c c' : Caller} (hp : Passage t b c c')
    (hc : c.registered = false) : ∀ u f, b ≠ .request u f := by
  cases hp with
  | ask => cases hc
  | _ => nofun

theorem opens.request {b : Uvconnect.Act} (ho : s.opens b) : ∀ u f, b ≠ .request u f := by
  rintro u f rfl
  exact ho

theorem Unregistered.step (hu : Unregistered s) (hi : s.conn.ClientInv)
    (hs : s.step w a = some (s', es)) : s'.conn.ploop = true ∨ Unregistered s' := by
  by_cases hp : s'.conn.ploop = true
  · exact .inl hp
  · refine .inr ⟨fun t => ?_, ?_⟩
    · by_contra hr
      rcases registered_of_step hs (Bool.eq_true_of_not_eq_false hr) with h | h
      · exact Bool.false_ne_true ((hu.1 t).symm.trans h)
      · exact hp h
    · cases step_cases hs with
      | aside => exact hu.2
      | passage _ t b c conn es hpass hb =>
        exact hu.2.step hi (hpass.clientSide _) (hpass.request (hu.1 t)) hb
      | conn b conn es ho hb => exact hu.2.step hi ho.clientSide ho.request hb

theorem ploop_of_step (hp : s.conn.ploop = true) (hs : s.step w a = some (s', es)) :
    s'.conn.ploop = true := by
  rcases conn_of_step hs with ⟨hc, -⟩ | ⟨b, hb⟩
  · rwa [hc]
  · exact (config_kept hb).1 hp

structure Known (tr : List Uvconnect.Event) (s : TcpClient) : Prop where
  conn : s.conn.ClientInv
  silent : ∀ e ∈ tr, e.isReceiving = false
  flag : s.conn.bConnectSuccess = true ↔ latest Uvconnect.Event.status tr = some 0
  loop : s.conn.ploop = true ∨ Unregistered s

theorem known_of_reach (h : (client w).Reach G tr s) : Known tr s := by
  have hany : (client w).Reach (onConn fun _ _ => True) tr s :=
    h.mono fun _ a _ => by cases a <;> trivial
  have hconn : ∀ {tr s}, (client w).Reach (onConn fun _ _ => True) tr s →
      s.conn.ClientInv ∧ (∀ e ∈ tr, e.isReceiving = false) ∧
        (s.conn.bConnectSuccess = true ↔ latest Uvconnect.Event.status tr = some 0) :=
    fun h => clientInv_of_reach (fun _ _ hg => hg.1)
      (clientSide_of_reach (fun _ _ _ _ _ _ => trivial) h)
  obtain ⟨hi, hsilent, hflag⟩ := hconn hany
  refine ⟨hi, hsilent, hflag, ?_⟩
  apply hany.stateInvariant (I := fun s => s.conn.ploop = true ∨ Unregistered s)
  · rintro s ⟨garbage, send, rfl⟩
    exact .inr ⟨fun _ => rfl, untouched_create garbage send⟩
  · rintro tr s a s' es hr (hp | hu) _ hs
    · exact .inl (ploop_of_step hp hs)
    · exact hu.step (hconn hr).1 hs

/-! ## The client hears of connecting and writing only -/

structure OneWay (w : ℕ) (tr : List Uvconnect.Event) (s : TcpClient) : Prop where
  /-- No handle is read or closed, and the handler gets neither `EV_READ` nor `EV_CLOSE`. -/
  silent : ∀ e ∈ tr, e.isReceiving = false
  /-- `WriteData` turns a payload away exactly if the last attempt to connect has failed, or
  none has ended. -/
  rejected_iff : ∀ t buf s' es, s.step w (.conn (.wirteData t buf)) = some (s', es) →
    (.rejected t ∈ es ↔ latest Uvconnect.Event.status tr ≠ some 0)

theorem rejected_wirteData {u u' : Uvconnect} {buf : List UInt8}
    (hp : u.bConnectSuccess = true → u.ploop = true)
    (hs : u.step w (.wirteData t buf) = some (u', es)) :
    .rejected t ∈ es ↔ u.bConnectSuccess ≠ true := by
  obtain ⟨-, hs⟩ := Option.ite_none_left_eq_some.mp hs
  obtain ⟨-, hs⟩ := Option.ite_none_right_eq_some.mp hs
  split at hs
  · next hc =>
    obtain ⟨-, rfl⟩ := Prod.mk.inj (Option.some.inj hs)
    simp [(Bool.and_eq_true_iff.mp hc).1]
  · next hc =>
    obtain ⟨-, rfl⟩ := Prod.mk.inj (Option.some.inj hs)
    have hflag : u.bConnectSuccess ≠ true := fun hf => hc (by simp [hf, hp hf])
    simp [hflag]

/-- In every history of a client, whatever happens to its connections. -/
theorem oneWay_of_reach (h : (client w).Reach G tr s) : OneWay w tr s := by
  have hk := known_of_reach h
  refine ⟨hk.silent, fun t buf s' es hs => ?_⟩
  have hp : s.conn.bConnectSuccess = true → s.conn.ploop = true := by
    intro hf
    exact hk.loop.resolve_right fun hu => Bool.false_ne_true (hu.2.flag.symm.trans hf)
  rw [rejected_wirteData hp (conn_cases hs).2, ne_eq, hk.flag]

/-- The peer is gone, the write fails, and `WriteData` goes on taking data. -/
theorem oneWay_of_reach_example : ∃ tr s, (client 64).Reach (anyStep _ _) tr s ∧
    .event .write (-32) ∈ tr ∧ (s.step 64 (.conn (.wirteData 1 [1]))).isSome = true ∧
    OneWay 64 tr s := by
  obtain ⟨tr, s, hr, hp⟩ := System.exists_run_of_exec (M := client 64) (G := anyStep _ _)
    (s := create (fun _ => .loopStop) fun _ => ⟨⟨none, 0, 0, 0⟩, ⟨none, 0⟩⟩)
    [.connectToServer 1 "127.0.0.1" 12396 true, .run 1, .setRunning 1, .next 1, .next 1, .next 1,
      .conn (.addReq 1), .conn (.lock 1), .conn (.turn (.fire 0)), .conn (.perform 0),
      .conn (.turn .tcbReturn), .conn (.turn .recycle), .conn (.connectCb 0 0),
      .conn (.wirteData 1 [1, 2]), .conn (.takeSend 1 ⟨true, 64, fun _ => 0⟩),
      .conn (.readmem 1 ⟨true, 64, fun _ => 0⟩ ⟨true, 64, fun _ => 0⟩), .conn (.addReq 1),
      .conn (.lock 1), .conn (.turn (.fire 1)), .conn (.perform 0), .conn (.turn .tcbReturn),
      .conn (.turn .recycle), .conn (.writeCb 0 (-32))]
    (p := fun s tr => decide (.event .write (-32) ∈ tr ∧
      (s.step 64 (.conn (.wirteData 1 [1]))).isSome = true)) (by decide +kernel)
  have h : (client 64).Reach (anyStep _ _) tr s := ⟨_, ⟨_, _, rfl⟩, hr⟩
  exact ⟨tr, s, h, (of_decide_eq_true hp).1, (of_decide_eq_true hp).2, oneWay_of_reach h⟩

/-! ## The client does not end the program -/

theorem Passage.assumed {b : Uvconnect.Act} {c c' : Caller} (hp : Passage t b c c')
    (u : Uvconnect) : assumed w u b := by
  cases hp <;> trivial

/-- With enough memory, and where `uv_write` returns 0, no null pointer is followed, no assertion
fails and `end()` is not dereferenced in any history of a client. -/
theorem neverEnds_of_reach (h : (client w).Reach (onConn (assumed w)) tr s) :
    s.conn.crashed = false := by
  apply h.stateInvariant (I := fun s => s.conn.crashed = false)
  · rintro s ⟨garbage, send, rfl⟩
    rfl
  · intro tr s a s' es hr hc hg hs
    have hk := known_of_reach hr
    have hrec : RecordInv w tr s.conn := recordInv_of_reach
      (clientSide_of_reach (fun u _ _ _ _ hp => hp.assumed u) hr |>.mono fun _ _ hg => hg.2) |>.2
    have hploop : ∀ t, s.conn.call t ≠ .idle → s.conn.ploop = true :=
      fun t ht => hk.loop.resolve_right fun hu => ht (hu.2.outside t)
    cases step_cases hs with
    | aside => exact hc
    | passage _ t b c conn es hp hb =>
      exact hk.conn.crashed_step hrec (hp.assumed s.conn) hploop hb
    | conn b conn es _ hb => exact hk.conn.crashed_step hrec hg hploop hb

/-- The first attempt fails, the second one succeeds, and a write ends with an error. -/
theorem neverEnds_of_reach_example : ∃ tr s, (client 64).Reach (onConn (assumed 64)) tr s ∧
    [.connectCb 0 (-111), .connectCb 1 0, .writeCb 0 (-32)].Sublist tr ∧
    s.conn.crashed = false := by
  let dial : List Act := [.connectToServer 1 "127.0.0.1" 12396 true, .run 1, .setRunning 1,
    .next 1, .next 1, .next 1]
  let serve (h : ℕ) : List Act := [.conn (.addReq 1), .conn (.lock 1), .conn (.turn (.fire h)),
    .conn (.perform 0), .conn (.turn .tcbReturn), .conn (.turn .recycle)]
  obtain ⟨tr, s, hr, hp⟩ := System.exists_run_of_exec (M := client 64)
    (G := onConn (assumed 64))
    (s := create (fun _ => .loopStop) fun _ => ⟨⟨none, 0, 0, 0⟩, ⟨none, 0⟩⟩)
    (dial ++ serve 0 ++ [.conn (.connectCb 0 (-111)), .connectToServer 1 "127.0.0.1" 12396 true,
      .next 1, .next 1, .next 1] ++ serve 1 ++ [.conn (.connectCb 1 0),
      .conn (.wirteData 1 [1, 2]), .conn (.takeSend 1 ⟨true, 64, fun _ => 0⟩),
      .conn (.readmem 1 ⟨true, 64, fun _ => 0⟩ ⟨true, 64, fun _ => 0⟩)] ++ serve 2 ++
      [.conn (.writeCb 0 (-32))])
    (p := fun _ tr => decide
      ([.connectCb 0 (-111), .connectCb 1 0, .writeCb 0 (-32)].Sublist tr)) (by decide +kernel)
  have h : (client 64).Reach (onConn (assumed 64)) tr s := ⟨_, ⟨_, _, rfl⟩, hr⟩
  exact ⟨tr, s, h, of_decide_eq_true hp, neverEnds_of_reach h⟩

end UvWrapper.TcpClient
