import UvWrapper.Connect.Records
import UvWrapper.Connect.Server
import UvWrapper.Connect.Storing

/-! # Connections that dial and write

A connection on which nobody starts to read and which nobody closes, as `TcpClient` uses it. Its
requests are those of `ConnectToServer` and `wirteData`; what happens to its streams is that they
are dialled and answered, and what can end the program is memory that runs out, a failed
`uv_write` and a loop that was never registered.
-/

namespace UvWrapper.Uvconnect

open Function Memory Transition

variable {w : ℕ} {s s' : Uvconnect} {a : Act} {es tr : List Event} {h t : ℕ} {req : Req}
  {l : Link}

/-- No stream is given to the connection from outside, and of the functions that add one
request only `ConnectToServer` is called. -/
def clientSide (_ : Uvconnect) : Act → Prop
  | .registerloopAndStream => False
  | .request _ f => f = .connectToServer
  | _ => True

def Event.isReceiving : Event → Bool
  | .readStart _ _ | .readStop _ | .uvClose _ _ | .event .read _ | .event .close _ => true
  | _ => false

def Event.status : Event → Option ℤ
  | .connectCb _ status => some status
  | _ => none

/-- What a step does with the streams, where nothing is read and nothing is closed. -/
inductive ClientMove (s : Uvconnect) : Act → Link → List Event → Prop
  | stay (a : Act) (es : List Event) : (∀ e ∈ es, e.isStream = false) →
      ClientMove s a s.link es
  | dial (err : ℤ) : s.body = some .connect → ClientMove s (.perform err) { s.link with
      tcps := s.tcps + 1
      tcp := update s.tcp s.tcps (if err = 0 then .connecting else .inited) }
      [.tcpInit s.tcps, .tcpConnect s.tcps s.addr]
  | connected (h : ℕ) (status : ℤ) : s.tcp h = .connecting →
      ClientMove s (.connectCb h status) { s.link with
        bConnectSuccess := decide (status = 0)
        stream := some h
        tcp := update s.tcp h (if status = 0 then .connected else .refused) }
        (.connectCb h status :: s.notify .connect status)
  | write (r h : ℕ) (err : ℤ) (bytes : List UInt8) (es : List Event) :
      (∀ e ∈ es, e.isStream = false) →
      ClientMove s (.perform err) s.link (.uvWrite r h (s.tcp h) bytes :: es)

/-- The requests are those of `ConnectToServer` and `wirteData`, and no handle is being read
or closed. -/
structure ClientInv (s : Uvconnect) : Prop where
  requests : ∀ req, s.OnItsWay req → req = .connect ∨ ∃ r, req = .tcpWrite r
  bReconect : s.bReconect = false
  reading : ∀ h, s.reading h = false
  closing : ∀ h, s.tcp h ≠ .closing
  seat : s.bConnectSuccess = true → s.stream ≠ none

/-! ## Steps -/

theorem PerformCases.clientMove {err : ℤ}
    (hp : PerformCases { s with body := none } err req s' es) (hb : s.body = some req)
    (hreq : req = .connect ∨ ∃ r, req = .tcpWrite r) : ClientMove s (.perform err) s'.link es := by
  cases hp with
  | connect => exact .dial err hb
  | other | closeConnect | readStart | readStop => simp at hreq
  | skipped => exact .stay _ _ (by simp)
  | fault | writeFault => exact .stay _ _ (by simp [Event.isStream])
  | write r h => exact .write r h err _ [] (by simp)
  | writeRefused r h => exact .write r h err _ [.fault] (by simp [Event.isStream])

theorem ClientInv.body (hi : s.ClientInv) (hb : s.body = some req) :
    req = .connect ∨ ∃ r, req = .tcpWrite r :=
  hi.requests req (.inr (.inr (.inr hb)))

theorem ClientInv.clientMove (hi : s.ClientInv) (hg : clientSide s a)
    (hs : s.step w a = some (s', es)) : ClientMove s a s'.link es := by
  by_cases ha : ∃ err, a = .perform err
  · obtain ⟨err, rfl⟩ := ha
    cases step_cases hs with
    | loop _ _ _ _ hl => cases hl
    | perform req err hb => exact (perform_cases _ req err).clientMove hb (hi.body hb)
  · have hne : ∀ err, a ≠ .perform err := fun err he => ha ⟨err, he⟩
    have hread : ∀ x n, a ≠ .readCb x n := by
      rintro x n rfl
      cases step_cases hs with
      | loop _ _ _ _ hl => cases hl
      | readCb _ _ _ _ hr => exact absurd ((hi.reading x).symm.trans hr) Bool.false_ne_true
    have hm := streamMove hs
    generalize s'.link = l at hm ⊢
    cases hm with
    | stay _ _ _ he => exact .stay a es he
    | accept => exact hg.elim
    | connected x status ht => exact .connected x status ht
    | closed x _ ht => exact (hi.closing x ht).elim
    | dial err | close _ err | readStart _ err | readStop _ err | write _ _ err =>
      exact (hne err rfl).elim
    | data x n | lost x _ n | orphan x n => exact (hread x n rfl).elim

theorem ClientMove.events (hm : ClientMove s a l es) :
    (∀ e ∈ es, e.isReceiving = false) ∧
      ∀ tr, (s.bConnectSuccess = true ↔ latest Event.status tr = some 0) →
        (l.bConnectSuccess = true ↔ latest Event.status (tr ++ es) = some 0) := by
  have hquiet : ∀ {fs : List Event}, (∀ e ∈ fs, e.isStream = false) →
      ∀ e ∈ fs, e.isReceiving = false ∧ e.status = none := by
    intro fs hf e he
    have hq := hf e he
    cases e with
    | event ev arg => cases ev <;> first | exact ⟨rfl, rfl⟩ | cases hq
    | _ => first | exact ⟨rfl, rfl⟩ | cases hq
  cases hm with
  | stay _ _ he =>
    refine ⟨fun e hm => (hquiet he e hm).1, fun tr hf => ?_⟩
    rw [latest_append_of_none fun e hm => (hquiet he e hm).2]
    exact hf
  | dial err =>
    refine ⟨by simp [Event.isReceiving], fun tr hf => ?_⟩
    rw [latest_append_of_none (by simp [Event.status])]
    exact hf
  | write r x err bytes fs he =>
    refine ⟨List.forall_mem_cons.mpr ⟨rfl, fun e hm => (hquiet he e hm).1⟩, fun tr hf => ?_⟩
    rw [latest_append_of_none
      (List.forall_mem_cons.mpr ⟨rfl, fun e hm => (hquiet he e hm).2⟩)]
    exact hf
  | connected x status =>
    have hnotify : ∀ e ∈ s.notify .connect status, e.isReceiving = false ∧ e.status = none := by
      unfold notify
      split <;> simp [Event.isReceiving, Event.status]
    refine ⟨List.forall_mem_cons.mpr ⟨rfl, fun e hm => (hnotify e hm).1⟩, fun tr _ => ?_⟩
    rw [List.append_cons, latest_append_of_none fun e hm => (hnotify e hm).2]
    simp [latest, Event.status]

theorem ClientInv.move (hi : s.ClientInv) (hm : ClientMove s a l es) :
    (∀ x, l.reading x = false) ∧ (∀ x, l.tcp x ≠ .closing) ∧
      (l.bConnectSuccess = true → l.stream ≠ none) := by
  have hclosing : ∀ {st : TcpState} {x : ℕ}, st ≠ .closing → ∀ y, update s.tcp x st y ≠ .closing :=
    fun hst y hy => hi.closing y (Update.of_update hst hy).2
  cases hm with
  | stay | write => exact ⟨hi.reading, hi.closing, hi.seat⟩
  | dial err => exact ⟨hi.reading, hclosing (by split <;> decide), hi.seat⟩
  | connected x status => exact ⟨hi.reading, hclosing (by split <;> decide), fun _ => nofun⟩

theorem clientSide.flagAfter (hg : clientSide s a) (hr : s.bReconect = false) :
    s.flagAfter a = false := by
  cases a with
  | request t f =>
    obtain rfl : f = .connectToServer := hg
    exact hr
  | closeCb => rfl
  | _ => exact hr

theorem ClientInv.step (hi : s.ClientInv) (hg : clientSide s a)
    (hs : s.step w a = some (s', es)) : s'.ClientInv := by
  obtain ⟨hreading, hclosing, hseat⟩ := hi.move (hi.clientMove hg hs)
  refine ⟨fun req h => ?_, (bReconect_step hs).trans (hg.flagAfter hi.bReconect), hreading,
    hclosing, hseat⟩
  by_cases hw : ∃ r, req = .tcpWrite r
  · exact .inr hw
  · rcases h.step hs hi.bReconect fun r hr => hw ⟨r, hr⟩ with h | ⟨t, f, rfl, hb⟩
    · exact hi.requests req h
    · obtain rfl : f = .connectToServer := hg
      exact .inl (Option.some.inj hb).symm

theorem clientInv_create (garbage : ℕ → EType) (send : ℕ → StSend) :
    (create garbage send).ClientInv := by
  refine ⟨?_, rfl, fun _ => rfl, nofun, nofun⟩
  rintro req (⟨t, h⟩ | ⟨t, e, h⟩ | ⟨x, h⟩ | h) <;> cases h

theorem clientInv_of_reach {G : Uvconnect → Act → Prop} (hG : ∀ s a, G s a → clientSide s a)
    (h : (connection w).Reach G tr s) :
    s.ClientInv ∧ (∀ e ∈ tr, e.isReceiving = false) ∧
      (s.bConnectSuccess = true ↔ latest Event.status tr = some 0) := by
  refine h.invariant (I := fun tr s => s.ClientInv ∧ (∀ e ∈ tr, e.isReceiving = false) ∧
    (s.bConnectSuccess = true ↔ latest Event.status tr = some 0)) ?_ ?_
  · rintro s ⟨garbage, send, rfl⟩
    exact ⟨clientInv_create garbage send, by simp, by simp [create, latest]⟩
  · rintro tr s a s' es - ⟨hi, hq, hf⟩ hg hs
    obtain ⟨hquiet, hflag⟩ := (hi.clientMove (hG s a hg) hs).events
    refine ⟨hi.step (hG s a hg) hs, fun e he => ?_, hflag tr hf⟩
    exact (List.mem_append.mp he).elim (hq e) (hquiet e)

/-! ## Before the first request -/

/-- Nobody is in a function of the connection, and no request to connect has been made. -/
structure Untouched (s : Uvconnect) : Prop where
  outside : ∀ t, s.call t = .idle
  asked : ¬ s.OnItsWay .connect
  raw : ∀ h, s.tcp h = .raw
  flag : s.bConnectSuccess = false

theorem Untouched.call (hu : s.Untouched) (ha : ∀ t f, a ≠ .request t f)
    (hs : s.step w a = some (s', es)) : s'.call = s.call := by
  have hidle : ∀ {t : ℕ} {c : Writer}, s.call t = c → c ≠ .idle → False :=
    fun hc hne => hne (hc.symm.trans (hu.outside _))
  cases step_cases hs with
  | checked _ _ _ hflag => exact absurd (hu.flag.symm.trans hflag) Bool.false_ne_true
  | obtained _ _ _ _ _ hc | filled _ _ _ _ _ _ _ hc | addReq _ _ _ _ hc =>
    exact (hidle hc nofun).elim
  | requesting t f => exact (ha t f rfl).elim
  | perform req err => exact (perform_cases { s with body := none } req err).threads.2.1
  | readCb h nread => exact (readDone_cases s nread).apart.1.call
  | writeCb r status =>
    unfold written
    split <;> rfl
  | closeCb h => exact (closed_cases s h).threads.1
  | _ => rfl

theorem Untouched.step (hu : s.Untouched) (hi : s.ClientInv) (hg : clientSide s a)
    (ha : ∀ t f, a ≠ .request t f) (hs : s.step w a = some (s', es)) : s'.Untouched := by
  have hlink : s'.link = s.link := by
    have hm := hi.clientMove hg hs
    generalize s'.link = l at hm ⊢
    cases hm with
    | stay | write => rfl
    | dial err hb => exact (hu.asked (.inr (.inr (.inr hb)))).elim
    | connected x status ht => cases (hu.raw x).symm.trans ht
  constructor
  case outside =>
    intro t
    rw [hu.call ha hs]
    exact hu.outside t
  case asked =>
    intro h
    rcases h.step hs hi.bReconect nofun with h | ⟨t, f, he, -⟩
    · exact hu.asked h
    · exact ha t f he
  case raw => exact fun h => (congrFun (congrArg Link.tcp hlink) h).trans (hu.raw h)
  case flag => exact (congrArg Link.bConnectSuccess hlink).trans hu.flag

theorem untouched_create (garbage : ℕ → EType) (send : ℕ → StSend) :
    (create garbage send).Untouched := by
  refine ⟨fun _ => rfl, ?_, fun _ => rfl, rfl⟩
  rintro (⟨t, h⟩ | ⟨t, e, h⟩ | ⟨x, h⟩ | h) <;> cases h

/-! ## What can end the program -/

theorem step_addReq_call (hs : s.step w (.addReq t) = some (s', es)) : s.call t ≠ .idle := by
  intro hc
  obtain ⟨-, hs⟩ := Option.ite_none_left_eq_some.mp hs
  simp [hc] at hs

theorem ploop_of_register (hs : s.step w .registerConnect = some (s', es)) :
    s'.ploop = true := by
  cases step_cases hs with
  | loop _ _ _ _ hl => cases hl
  | registerConnect => rfl

theorem takeSend_isSome (s : Uvconnect) {ma : Answer} (hok : ma.ok = true) :
    s.takeSend ma ≠ none := by
  unfold takeSend
  split <;> simp [Safebuffer.create, Memory.malloc, hok]

theorem step_readmem_crashed {ma re : Answer} (hok : ma.ok = true)
    (hs : s.step w (.readmem t ma re) = some (s', es)) : s'.crashed = false := by
  have hc := crashed_of_step hs
  obtain ⟨-, hs⟩ := Option.ite_none_left_eq_some.mp hs
  dsimp only at hs
  split at hs
  · next r buf _ =>
    obtain ⟨b, ok, hb⟩ := Safebuffer.readmem_isSome (w := w) (s.send r).tsafebuf buf re hok
    rw [hb] at hs
    obtain ⟨rfl, -⟩ := Prod.mk.inj (Option.some.inj hs)
    exact hc
  · contradiction

theorem PerformCases.crashed_write {r : ℕ} (hp : PerformCases s 0 (.tcpWrite r) s' es)
    (hseat : s.bConnectSuccess = true → s.stream ≠ none) : s'.crashed = s.crashed := by
  cases hp with
  | skipped | write => rfl
  | fault _ hne => exact (hne r rfl).elim
  | writeFault _ hflag hst => exact (hseat hflag hst).elim
  | writeRefused _ h _ _ hne => exact (hne rfl).elim

theorem ClientInv.crashed_perform {err : ℤ} (hi : s.ClientInv) (hc : s.crashed = false)
    (hb : s.body = some req) (herr : ∀ r, req = .tcpWrite r → err = 0) :
    ({ s with body := none }.perform req err).1.crashed = false := by
  rcases hi.body hb with rfl | ⟨r, rfl⟩
  · exact hc
  · obtain rfl := herr r rfl
    have hp := perform_cases { s with body := none } (.tcpWrite r) 0
    exact (hp.crashed_write hi.seat).trans hc

/-- With enough memory, and where `uv_write` returns 0, no step of a client's connection ends
the program. -/
theorem ClientInv.crashed_step (hi : s.ClientInv) (hr : RecordInv w tr s) (hg : assumed w s a)
    (hp : ∀ t, s.call t ≠ .idle → s.ploop = true) (hs : s.step w a = some (s', es)) :
    s'.crashed = false := by
  have hc := crashed_of_step hs
  cases step_cases hs with
  | obtainFault t ma ht => exact (takeSend_isSome s hg ht).elim
  | fillFault t ma re => exact step_readmem_crashed hg.1 hs
  | addReqFault t =>
    have hploop := hp t (step_addReq_call hs)
    exact absurd ((ploop_of_fault hs).symm.trans hploop) Bool.false_ne_true
  | obtained t ma buf r s₁ _ ht =>
    obtain ⟨b, -, -, -, rfl⟩ | ⟨rest, -, rfl⟩ := takeSend_cases ht <;> exact hc
  | requesting t f s₁ req _ hb => cases f <;> (obtain ⟨rfl, -⟩ := Prod.mk.inj hb; exact hc)
  | perform req err hb =>
    exact hi.crashed_perform hc hb fun r hr => hg r (hr ▸ hb)
  | readCb h nread _ _ hread =>
    exact absurd ((hi.reading h).symm.trans hread) Bool.false_ne_true
  | writeCb r status _ hw =>
    unfold written
    rw [if_pos (hr.held .libuv r hw)]
    exact hc
  | closeCb h _ ht => exact (hi.closing h ht).elim
  | _ => exact hc

end UvWrapper.Uvconnect
