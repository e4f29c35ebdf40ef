import UvWrapper.Netlib.Basic

/-! # Inversion of the library's steps

`StepCases` lists what each label does with the conditions under which it is enabled. The
calls and callbacks of the socket touch nothing that the sends use; they have a list of
their own.
-/

namespace UvWrapper.Netlibuv

open Function Memory

inductive SocketCases (s : Netlibuv) : Act → Netlibuv → List Event → Prop
  | connecting : SocketCases s (.netConnect 0) { s with socktcp := .connecting, connecting := true }
      [.netConnect, .tcpConnect s.socktcp s.connecting]
  | connectFault (err : ℤ) : SocketCases s (.netConnect err) { s with down := true }
      [.netConnect, .tcpConnect s.socktcp s.connecting, .fault]
  | closing (err : ℤ) : s.btcpClosed = false → s.ptcpHandle = true →
      SocketCases s (.netReConnect err) { s with socktcp := .closing }
        [.netReConnect, .uvClose s.ptcpHandle s.socktcp]
  | closeFault (err : ℤ) : s.btcpClosed = false → s.ptcpHandle = false →
      SocketCases s (.netReConnect err) { s with down := true }
        [.netReConnect, .uvClose s.ptcpHandle s.socktcp, .fault]
  | reconnecting : s.btcpClosed = true →
      SocketCases s (.netReConnect 0) { s with socktcp := .connecting, connecting := true }
        [.netReConnect, .tcpInit s.socktcp s.connecting, .tcpConnect .inited s.connecting]
  | reconnectFailed (err : ℤ) : s.btcpClosed = true → err ≠ 0 →
      SocketCases s (.netReConnect err) { s with socktcp := .inited }
        [.netReConnect, .tcpInit s.socktcp s.connecting, .tcpConnect .inited s.connecting]
  | closeConnection : s.ptcpHandle = true →
      SocketCases s .netCloseConnection { s with socktcp := .closing }
        [.uvClose s.ptcpHandle s.socktcp]
  | closeConnectionFault : s.ptcpHandle = false →
      SocketCases s .netCloseConnection { s with down := true }
        [.uvClose s.ptcpHandle s.socktcp, .fault]
  | connected : s.connecting = true → s.socktcp = .connecting →
      SocketCases s (.connectCb 0) { s with
        connecting := false
        ptcpHandle := true
        socktcp := .connected
        btcpClosed := false
        reading := true } [.connectCb 0, .connectCallBack 0]
  | refused (status : ℤ) : status ≠ 0 → s.connecting = true → s.socktcp = .connecting →
      SocketCases s (.connectCb status)
        { s with connecting := false, ptcpHandle := true, socktcp := .refused }
        [.connectCb status, .connectCallBack status]
  | cancelled (status : ℤ) : status ≠ 0 → s.connecting = true → s.socktcp = .closing →
      SocketCases s (.connectCb status) { s with connecting := false, ptcpHandle := true }
        [.connectCb status, .connectCallBack status]
  | readFailed (nread : ℤ) : s.socktcp = .connected →
      SocketCases s (.readCb nread) { s with reading := false } [.readStop, .readCallback (-1)]
  | read (nread : ℤ) : s.socktcp = .connected →
      SocketCases s (.readCb nread) s [.readCallback nread]
  | closed : s.socktcp = .closing → s.connecting = false →
      SocketCases s .closeCb { s with socktcp := .closed, btcpClosed := true, reading := false }
        [.closeCb]

inductive StepCases (w : ℕ) (s : Netlibuv) : Act → Netlibuv → List Event → Prop
  | asyncRefused (t : ℕ) (p : List UInt8) (ma re : Answer) : s.dAsyncSend = [] →
      StepCases w s (.netAsyncSend t p ma re) s [.asyncRefused]
  | asyncAccepted (t : ℕ) (p : List UInt8) (ma re : Answer) (i : ℕ) (rest : List ℕ)
      (b : Safebuffer) (ok : Bool) : s.dAsyncSend = i :: rest → s.asyncCb = none →
      (s.asyncSend i).clearMem.readmem w p ma re = some (b, ok) →
      StepCases w s (.netAsyncSend t p ma re) { s with
        dAsyncSend := rest
        mapAsyncSend := insert i s.mapAsyncSend
        asyncSend := update s.asyncSend i b
        asyncPending := insert i s.asyncPending } [.asyncAccepted i p]
  | entered (t : ℕ) (p : List UInt8) : s.Idle t →
      StepCases w s (.netSend t p) { s with netSend := update s.netSend t (.entered p) } []
  | obtained (t : ℕ) (ma : Answer) (p : List UInt8) (r : ℕ) (s₁ : Netlibuv) :
      s.netSend t = .entered p → s.takeSend ma = some (r, s₁) →
      StepCases w s (.takeSend t ma) { s₁ with netSend := update s.netSend t (.obtained r p) }
        [.obtained t r p]
  | filled (t : ℕ) (ma re : Answer) (p : List UInt8) (r : ℕ) (b : Safebuffer) (ok : Bool) :
      s.netSend t = .obtained r p → (s.send r).buffer.readmem w p ma re = some (b, ok) →
      StepCases w s (.fill t ma re) { s with
        send := update s.send r ⟨uvBufInit (b.pbuffer.map Block.addr) b.datalen, b⟩
        netSend := update s.netSend t (.filled r) } []
  | written (t r : ℕ) : s.netSend t = .filled r →
      StepCases w s (.write t 0) { s with
        writing := update s.writing r (some (s.send r).uvBuf)
        netSend := update s.netSend t .idle }
        [.uvWrite r s.ptcpHandle ((s.send r).buffer.covered (s.send r).uvBuf)]
  | writeFault (t r : ℕ) (err : ℤ) : s.netSend t = .filled r →
      StepCases w s (.write t err) { s with down := true }
        [.uvWrite r s.ptcpHandle ((s.send r).buffer.covered (s.send r).uvBuf), .fault]
  | asyncEntered (i : ℕ) : s.LoopIdle → i ∈ s.asyncPending → i ∈ s.mapAsyncSend →
      StepCases w s (.asyncEnter i) { s with
        asyncPending := s.asyncPending.erase i
        asyncCb := some i
        netSend := update s.netSend loopThread (.entered
          ((s.asyncSend i).contents.take (uint (s.asyncSend i).datalen))) } [.asyncEntered i]
  | asyncUnknown (i : ℕ) : i ∈ s.asyncPending → i ∉ s.mapAsyncSend →
      StepCases w s (.asyncEnter i) { s with asyncPending := s.asyncPending.erase i }
        [.asyncEntered i, .asyncReturned i]
  | asyncReturned (i : ℕ) : s.asyncCb = some i → s.netSend loopThread = .idle →
      StepCases w s .asyncReturn { s with asyncCb := none } [.asyncReturned i]
  | writeDone (r : ℕ) (status : ℤ) (buf : UvBuf) : s.writing r = some buf → r ∈ s.mapSend →
      StepCases w s (.writeCb r status) { s with
        writing := update s.writing r none
        dSend := s.dSend ++ [r]
        mapSend := s.mapSend.erase r } [.writeCb r true status]
  | writeUnknown (r : ℕ) (status : ℤ) (buf : UvBuf) : s.writing r = some buf →
      r ∉ s.mapSend →
      StepCases w s (.writeCb r status) { s with writing := update s.writing r none }
        [.writeCb r false status]
  | socket (a : Act) (s' : Netlibuv) (es : List Event) : SocketCases s a s' es →
      StepCases w s a s' es

variable {w : ℕ} {s s' : Netlibuv} {a : Act} {es : List Event}

/-- `net_Send` makes a record or takes the first free one, whose buffer it clears. -/
theorem takeSend_cases {ma : Answer} {r : ℕ} (h : s.takeSend ma = some (r, s')) :
    (∃ b, s.dSend = [] ∧ Safebuffer.create ma = some b ∧ r = s.created ∧ s' = { s with
      send := update s.send s.created { s.send s.created with buffer := b }
      created := s.created + 1
      mapSend := insert s.created s.mapSend }) ∨
    ∃ rest, s.dSend = r :: rest ∧ s' = { s with
      dSend := rest
      send := update s.send r { s.send r with buffer := (s.send r).buffer.clearMem }
      mapSend := insert r s.mapSend } := by
  unfold takeSend at h
  split at h
  · next hd =>
    obtain ⟨b, hb, he⟩ := Option.map_eq_some_iff.mp h
    obtain ⟨rfl, rfl⟩ := Prod.mk.inj he
    exact .inl ⟨b, hd, hb, rfl, rfl⟩
  · next x rest hd =>
    obtain ⟨rfl, rfl⟩ := Prod.mk.inj (Option.some.inj h)
    exact .inr ⟨rest, hd, rfl⟩

theorem takeSend_frame {ma : Answer} {r : ℕ} (h : s.takeSend ma = some (r, s')) :
    s' = { s with
      dSend := s'.dSend
      mapSend := s'.mapSend
      created := s'.created
      send := s'.send } := by
  rcases takeSend_cases h with ⟨b, -, -, -, rfl⟩ | ⟨rest, -, rfl⟩
  · rfl
  · rfl

theorem socket_of_netReConnect (s : Netlibuv) (err : ℤ) :
    SocketCases s (.netReConnect err) (s.netReConnect err).1 (s.netReConnect err).2 := by
  unfold netReConnect
  split
  · next hc =>
    unfold netCloseConnection
    dsimp only
    split
    · next hh => exact .closing err hc hh
    · next hh => exact .closeFault err hc (Bool.not_eq_true _ ▸ hh)
  · next hc =>
    have hc : s.btcpClosed = true := Bool.not_eq_false _ ▸ hc
    unfold tcpConnect
    dsimp only
    split
    · next he =>
      obtain rfl := he
      exact .reconnecting hc
    · next he => exact .reconnectFailed err hc he

theorem socket_of_connectCb {status : ℤ} (h : s.ConnectResult status) :
    SocketCases s (.connectCb status) (s.connectCb status).1 (s.connectCb status).2 := by
  obtain ⟨hc, ht⟩ := h
  unfold connectCb
  dsimp only
  split
  · next hs =>
    rcases ht with ht | ⟨ht, -⟩
    · simpa only [ht, if_true, if_neg hs] using .refused status hs hc ht
    · have hne : s.socktcp ≠ .connecting := by rw [ht]; decide
      simpa only [if_neg hne] using .cancelled status hs hc ht
  · next hs =>
    obtain rfl := not_not.mp hs
    have ht : s.socktcp = .connecting := ht.resolve_right fun h => h.2 rfl
    simpa only [ht, if_true] using .connected hc ht

theorem step_cases (hs : s.step w a = some (s', es)) : StepCases w s a s' es := by
  unfold step at hs
  split at hs
  · contradiction
  · cases a with
    | netAsyncSend t p ma re =>
      obtain ⟨⟨-, hcb⟩, hs⟩ := Option.ite_none_right_eq_some.mp hs
      obtain ⟨q, hq, he⟩ := Option.map_eq_some_iff.mp hs
      obtain ⟨rfl, rfl⟩ := Prod.mk.inj he
      unfold netAsyncSend at hq
      split at hq
      · next hd =>
        obtain rfl := Option.some.inj hq
        exact .asyncRefused t p ma re hd
      · next i rest hd =>
        obtain ⟨⟨b, ok⟩, hb, rfl⟩ := Option.map_eq_some_iff.mp hq
        exact .asyncAccepted t p ma re i rest b ok hd hcb hb
    | netSend t p =>
      obtain ⟨hi, hs⟩ := Option.ite_none_right_eq_some.mp hs
      obtain ⟨rfl, rfl⟩ := Prod.mk.inj (Option.some.inj hs)
      exact .entered t p hi
    | takeSend t ma =>
      dsimp only at hs
      split at hs
      · next p hp =>
        obtain ⟨⟨r, s₁⟩, ht, he⟩ := Option.map_eq_some_iff.mp hs
        obtain ⟨rfl, rfl⟩ := Prod.mk.inj he
        exact .obtained t ma p r s₁ hp ht
      · contradiction
      · contradiction
      · contradiction
    | fill t ma re =>
      dsimp only at hs
      split at hs
      · next r p hp =>
        obtain ⟨s₁, hf, he⟩ := Option.map_eq_some_iff.mp hs
        obtain ⟨rfl, rfl⟩ := Prod.mk.inj he
        obtain ⟨⟨b, ok⟩, hb, rfl⟩ := Option.map_eq_some_iff.mp hf
        exact .filled t ma re p r b ok hp hb
      · contradiction
      · contradiction
      · contradiction
    | write t err =>
      dsimp only at hs
      split at hs
      · next r hr =>
        unfold write at hs
        dsimp only at hs
        split at hs
        · next hok =>
          obtain ⟨-, rfl⟩ := hok
          obtain ⟨rfl, rfl⟩ := Prod.mk.inj (Option.some.inj hs)
          exact .written t r hr
        · obtain ⟨rfl, rfl⟩ := Prod.mk.inj (Option.some.inj hs)
          exact .writeFault t r err hr
      · contradiction
      · contradiction
      · contradiction
    | asyncEnter i =>
      obtain ⟨⟨hl, hp⟩, hs⟩ := Option.ite_none_right_eq_some.mp hs
      unfold asyncEnter at hs
      dsimp only at hs
      split at hs
      · next hm =>
        obtain ⟨rfl, rfl⟩ := Prod.mk.inj (Option.some.inj hs)
        exact .asyncEntered i hl hp hm
      · next hm =>
        obtain ⟨rfl, rfl⟩ := Prod.mk.inj (Option.some.inj hs)
        exact .asyncUnknown i hp hm
    | asyncReturn =>
      dsimp only at hs
      split at hs
      · next i hi =>
        obtain ⟨hn, hs⟩ := Option.ite_none_right_eq_some.mp hs
        obtain ⟨rfl, rfl⟩ := Prod.mk.inj (Option.some.inj hs)
        exact .asyncReturned i hi hn
      · contradiction
    | writeCb r status =>
      obtain ⟨⟨-, hw⟩, hs⟩ := Option.ite_none_right_eq_some.mp hs
      obtain ⟨buf, hbuf⟩ := Option.isSome_iff_exists.mp hw
      unfold writeCb at hs
      dsimp only at hs
      split at hs
      · next hm =>
        obtain ⟨rfl, rfl⟩ := Prod.mk.inj (Option.some.inj hs)
        exact .writeDone r status buf hbuf hm
      · next hm =>
        obtain ⟨rfl, rfl⟩ := Prod.mk.inj (Option.some.inj hs)
        exact .writeUnknown r status buf hbuf hm
    | netConnect err =>
      refine .socket _ _ _ ?_
      unfold netConnect tcpConnect at hs
      dsimp only at hs
      split at hs
      · next he =>
        obtain rfl := he
        obtain ⟨rfl, rfl⟩ := Prod.mk.inj (Option.some.inj hs)
        exact .connecting
      · obtain ⟨rfl, rfl⟩ := Prod.mk.inj (Option.some.inj hs)
        exact .connectFault err
    | netReConnect err =>
      obtain ⟨-, hs⟩ := Option.ite_none_right_eq_some.mp hs
      obtain ⟨rfl, rfl⟩ := Prod.mk.inj (Option.some.inj hs)
      exact .socket _ _ _ (socket_of_netReConnect s err)
    | netCloseConnection =>
      obtain ⟨-, hs⟩ := Option.ite_none_right_eq_some.mp hs
      refine .socket _ _ _ ?_
      unfold netCloseConnection at hs
      dsimp only at hs
      split at hs
      · next hh =>
        obtain ⟨rfl, rfl⟩ := Prod.mk.inj (Option.some.inj hs)
        exact .closeConnection hh
      · next hh =>
        obtain ⟨rfl, rfl⟩ := Prod.mk.inj (Option.some.inj hs)
        exact .closeConnectionFault (Bool.not_eq_true _ ▸ hh)
    | connectCb status =>
      obtain ⟨⟨-, hr⟩, hs⟩ := Option.ite_none_right_eq_some.mp hs
      obtain ⟨rfl, rfl⟩ := Prod.mk.inj (Option.some.inj hs)
      exact .socket _ _ _ (socket_of_connectCb hr)
    | readCb nread =>
      obtain ⟨⟨-, -, hc⟩, hs⟩ := Option.ite_none_right_eq_some.mp hs
      refine .socket _ _ _ ?_
      unfold readCb at hs
      split at hs
      · obtain ⟨rfl, rfl⟩ := Prod.mk.inj (Option.some.inj hs)
        exact .readFailed nread hc
      · obtain ⟨rfl, rfl⟩ := Prod.mk.inj (Option.some.inj hs)
        exact .read nread hc
    | closeCb =>
      obtain ⟨⟨-, hc, hn⟩, hs⟩ := Option.ite_none_right_eq_some.mp hs
      obtain ⟨rfl, rfl⟩ := Prod.mk.inj (Option.some.inj hs)
      exact .socket _ _ _ (.closed hc hn)

def Event.isSend : Event → Bool
  | .asyncAccepted _ _ | .asyncRefused | .asyncEntered _ | .asyncReturned _ | .obtained _ _ _
  | .uvWrite _ _ _ | .writeCb _ _ _ => true
  | _ => false

structure SendsKept (s : Netlibuv) (es : List Event) (s' : Netlibuv) : Prop where
  eq : s' = { s with
    ptcpHandle := s'.ptcpHandle
    btcpClosed := s'.btcpClosed
    socktcp := s'.socktcp
    connecting := s'.connecting
    reading := s'.reading
    down := s'.down }
  events : ∀ e ∈ es, e.isSend = false

theorem SocketCases.sendsKept (h : SocketCases s a s' es) : SendsKept s es s' := by
  cases h <;> exact ⟨rfl, by simp [Event.isSend]⟩

end UvWrapper.Netlibuv
