import UvWrapper.Connect.Records

/-! # What is written of a payload

In every run a record in flight is obtained by nobody else and keeps its bytes. Only the
length of the `uv_buf_t` is not always that of the payload: it is an `unsigned int`.
-/

namespace UvWrapper.Uvconnect

open Function Memory Transition

variable {w : ℕ} {s s' : Uvconnect} {a : Act} {es tr : List Event} {t r : ℕ} {ma : Answer}
  {buf p : List UInt8}

theorem mem_written {status : ℤ} {e : Event} (he : e ∈ (s.written r status).2) :
    e = .writeCb r status ∨ e = .derefEnd r ∨ e.isRecord = false := by
  unfold written at he
  split at he
  · rcases List.mem_cons.mp he with he | he
    · exact .inl he
    · exact .inr (.inr (notify_isRecord _ _ _ _ he))
  · rcases List.mem_cons.mp he with he | he
    · exact .inl he
    · exact .inr (.inl (List.mem_singleton.mp he))

theorem written_call (s : Uvconnect) (r : ℕ) (status : ℤ) :
    (s.written r status).1.call = s.call := by
  unfold written
  split <;> rfl

theorem RecordInv.not_inFlight_of_obtained (hi : RecordInv w tr s) (hl : s.LoopInv)
    (hg : assumed w s a) (hs : s.step w a = some (s', es)) (he : .obtained t r p ∈ es) :
    latest (flightOf r) tr ≠ some true := by
  intro hfly
  cases hl.move hg.writesAccepted hs with
  | keep _ _ _ _ _ _ hes => cases hes _ he
  | give _ _ _ _ _ _ _ _ _ _ _ _ hes => cases hes _ he
  | obtain u ma buf x s₁ hc ht =>
    obtain ⟨-, rfl, -⟩ : t = u ∧ r = x ∧ p = buf := by simpa using he
    have hbound := hi.checked u buf hc
    have hob := hi.obtains (Nat.lt_of_le_of_lt (Nat.le_add_left ..) hbound) ht
    exact hob.unused (hi.flying r hfly)
  | fill | write => simp at he
  | complete x status => rcases mem_written he with h | h | h <;> cases h

theorem RecordInv.uvWrite_iff (hi : RecordInv w tr s) (hl : s.LoopInv) (hg : assumed w s a)
    (hs : s.step w a = some (s', es)) {h : ℕ} {st : TcpState} {bytes : List UInt8}
    (he : .uvWrite r h st bytes ∈ es) :
    ∃ p, latest (payloadOf r) tr = some p ∧ (bytes = p ↔ p.length < 2 ^ 32) := by
  cases hl.move hg.writesAccepted hs with
  | keep _ _ _ _ _ _ hes => cases hes _ he
  | give _ _ _ _ _ _ _ _ _ _ _ _ hes => cases hes _ he
  | obtain | fill => simp at he
  | write x h' hb =>
    obtain ⟨rfl, -, -, rfl⟩ : r = x ∧ h = h' ∧ st = s.tcp h' ∧
        bytes = (s.send x).tsafebuf.covered (sendBuf (s.send x)) := by simpa using he
    have hheld : s.Holds .body r := hb
    have hcont : latest (payloadOf r) tr = some (s.send r).tsafebuf.contents := by
      apply (hi.content .body r hheld).resolve_left
      rintro ⟨u, p, hou, -⟩
      cases hou
    rw [covered_sendBuf (hi.buffers r (hi.lt_created hheld))]
    exact ⟨_, hcont, take_uint_eq_iff⟩
  | complete x status => rcases mem_written he with h | h | h <;> cases h

structure RecordsSafe (w : ℕ) (tr : List Event) (s : Uvconnect) : Prop where
  nodup : s.dSend.Nodup
  disjoint : ∀ r ∈ s.dSend, r ∉ s.mapSend
  inFlight : ∀ r, latest (flightOf r) tr = some true → r ∈ s.mapSend ∧ r ∉ s.dSend
  /-- No copy has run over the end of a buffer. -/
  buffers : ∀ r < s.created, (s.send r).tsafebuf.WellFormed w
  /-- The bytes that libuv writes are still those that `uv_write` was given. -/
  unchanged : ∀ r buf, s.writing r = some buf →
    latest (writtenOf r) tr = some ((s.send r).tsafebuf.covered buf)
  /-- The branch that dereferences `end()` is not reached. -/
  sound : ∀ r, .derefEnd r ∉ tr

theorem RecordInv.safe (hi : RecordInv w tr s) : RecordsSafe w tr s where
  nodup := hi.pool.nodup
  disjoint := hi.pool.disjoint
  inFlight r hr := ⟨hi.flying r hr, fun hd => hi.pool.disjoint r hd (hi.flying r hr)⟩
  buffers := hi.buffers
  unchanged r buf hb := (hi.writing r buf hb).2
  sound := hi.sound

/-- In the runs whose steps satisfy `G` the records are safe, no call obtains a record in
flight, and `uv_write` is given exactly the payload of the call. -/
def WritesIntact (w : ℕ) (G : Uvconnect → Act → Prop) : Prop :=
  ∀ tr s, (connection w).Reach G tr s → RecordsSafe w tr s ∧
    ∀ a s' es, G s a → s.step w a = some (s', es) →
      (∀ t r p, .obtained t r p ∈ es → latest (flightOf r) tr ≠ some true) ∧
      ∀ r h st bytes, .uvWrite r h st bytes ∈ es → latest (payloadOf r) tr = some bytes

def fitsUint (_ : Uvconnect) : Act → Prop
  | .wirteData _ buf => buf.length < 2 ^ 32
  | _ => True

theorem mem_of_payloadOf (h : latest (payloadOf r) tr = some p) : ∃ t, .obtained t r p ∈ tr := by
  obtain ⟨e, he, hp⟩ := List.mem_filterMap.mp (List.mem_of_getLast? h)
  cases e with
  | obtained t x buf =>
    simp only [payloadOf, Option.ite_none_right_eq_some, Option.some.injEq] at hp
    obtain ⟨rfl, rfl⟩ := hp
    exact ⟨t, he⟩
  | _ => cases hp

theorem LoopInv.payloads {Q : List UInt8 → Prop} (hl : s.LoopInv) (hg : writesAccepted s a)
    (hs : s.step w a = some (s', es)) (hc : ∀ t p, s.call t = .checked p → Q p)
    (hnew : ∀ t p, a = .wirteData t p → Q p) :
    (∀ t p, s'.call t = .checked p → Q p) ∧ ∀ t r p, .obtained t r p ∈ es → Q p := by
  have hquiet : CallsKept s a s' → (∀ e ∈ es, e.isRecord = false) →
      (∀ t p, s'.call t = .checked p → Q p) ∧ ∀ t r p, .obtained t r p ∈ es → Q p := by
    refine fun hk hes => ⟨fun t p ht => ?_, fun t r p he => by cases hes _ he⟩
    exact (hk.checked t p ht).elim (hc t p) (hnew t p)
  have hupd : ∀ u c, (∀ p, c ≠ .checked p) → ∀ t p, update s.call u c t = .checked p → Q p := by
    intro u c hne t p ht
    exact hc t p (Update.of_update (hne p) ht).2
  cases hl.move hg hs with
  | keep _ _ _ _ hk _ hes => exact hquiet hk hes
  | give _ _ _ _ _ _ _ hk _ _ _ _ hes => exact hquiet hk hes
  | obtain u ma buf r s₁ hcu ht =>
    constructor
    · exact hupd u _ nofun
    · intro t x p he
      obtain ⟨-, -, rfl⟩ : t = u ∧ x = r ∧ p = buf := by simpa using he
      exact hc u p hcu
  | fill u ma re r buf b ok => exact ⟨hupd u _ nofun, by simp⟩
  | write r h => exact ⟨hc, by simp⟩
  | complete r status =>
    constructor
    · rwa [written_call]
    · intro t x p he
      rcases mem_written he with h | h | h <;> cases h

theorem payloads_of_run {G : Uvconnect → Act → Prop} {Q : List UInt8 → Prop} {tr₀ : List Event}
    {s₀ : Uvconnect} (hG : ∀ s a, G s a → assumed w s a)
    (hQ : ∀ s t p, G s (.wirteData t p) → Q p) (h₀ : (connection w).Reach (assumed w) tr₀ s₀)
    (hc₀ : ∀ t p, s₀.call t ≠ .checked p) (h : (connection w).Run G s₀ tr s) :
    (∀ t p, s.call t = .checked p → Q p) ∧ ∀ t r p, .obtained t r p ∈ tr → Q p := by
  refine h.induct (I := fun tr s => (∀ t p, s.call t = .checked p → Q p) ∧
    ∀ t r p, .obtained t r p ∈ tr → Q p) ⟨fun t p ht => (hc₀ t p ht).elim, by simp⟩ ?_
  rintro tr s a s' es hr ⟨hc, ho⟩ hg hs
  have hl := (recordInv_of_reach (h₀.trans (hr.mono hG))).1
  obtain ⟨hc', ho'⟩ := hl.payloads (hG s a hg).writesAccepted hs hc fun t p ha => hQ s t p (ha ▸ hg)
  exact ⟨hc', fun t r p he => (List.mem_append.mp he).elim (ho t r p) (ho' t r p)⟩

/-- As long as every length fits an `unsigned int`, records in flight are safe and intact.
In any other run they are safe as well, and a payload is written whole exactly if its own
length fits. -/
theorem writesIntact_of_fitsUint (w : ℕ) :
    (WritesIntact w fun s a => assumed w s a ∧ fitsUint s a) ∧
      ∀ tr s, (connection w).Reach (assumed w) tr s → RecordsSafe w tr s ∧
        ∀ a s' es, assumed w s a → s.step w a = some (s', es) →
          (∀ t r p, .obtained t r p ∈ es → latest (flightOf r) tr ≠ some true) ∧
          ∀ r h st bytes, .uvWrite r h st bytes ∈ es →
            ∃ p, latest (payloadOf r) tr = some p ∧ (bytes = p ↔ p.length < 2 ^ 32) := by
  have hall : ∀ tr s, (connection w).Reach (assumed w) tr s → RecordsSafe w tr s ∧
      ∀ a s' es, assumed w s a → s.step w a = some (s', es) →
        (∀ t r p, .obtained t r p ∈ es → latest (flightOf r) tr ≠ some true) ∧
        ∀ r h st bytes, .uvWrite r h st bytes ∈ es →
          ∃ p, latest (payloadOf r) tr = some p ∧ (bytes = p ↔ p.length < 2 ^ 32) := by
    intro tr s h
    obtain ⟨hl, hi⟩ := recordInv_of_reach h
    exact ⟨hi.safe, fun a s' es hg hs => ⟨fun t r p he => hi.not_inFlight_of_obtained hl hg hs he,
      fun r h st bytes he => hi.uvWrite_iff hl hg hs he⟩⟩
  refine ⟨fun tr s h => ?_, hall⟩
  obtain ⟨hsafe, hstep⟩ := hall tr s (h.mono fun _ _ hg => hg.1)
  refine ⟨hsafe, fun a s' es hg hs => ?_⟩
  obtain ⟨hob, hwr⟩ := hstep a s' es hg.1 hs
  refine ⟨hob, fun r hd st bytes he => ?_⟩
  obtain ⟨p, hp, hiff⟩ := hwr r hd st bytes he
  obtain ⟨t, hm⟩ := mem_of_payloadOf hp
  obtain ⟨s₀, ⟨garbage, send, rfl⟩, hrun⟩ := h
  have hfit := (payloads_of_run (Q := fun p => p.length < 2 ^ 32) (fun _ _ hg => hg.1)
    (fun _ _ _ hg => hg.2) (.start ⟨garbage, send, rfl⟩) nofun hrun).2 t r p hm
  rw [hp, hiff.mpr hfit]

theorem step_takeSend {b : Safebuffer} (hb : Safebuffer.create ma = some b) (hd : s.dSend = [])
    (hc : s.call t = .checked buf) (hn : s.crashed = false) :
    s.step w (.takeSend t ma) = some ({ s with
      send := update s.send s.created { s.send s.created with tsafebuf := b }
      created := s.created + 1
      mapSend := insert s.created s.mapSend
      call := update s.call t (.obtained s.created buf) }, [.obtained t s.created buf]) := by
  simp only [step, hn, hc, takeSend, hd, hb]
  rfl

theorem step_readmem {re : Answer} {b : Safebuffer} {ok : Bool}
    (hr : (s.send r).tsafebuf.readmem w buf ma re = some (b, ok)) (hc : s.call t = .obtained r buf)
    (hn : s.crashed = false) : s.step w (.readmem t ma re) = some ({ s with
      send := update s.send r { s.send r with tsafebuf := b }
      call := update s.call t (.requesting (.tcpWrite r)) }, [.filled t r ok]) := by
  simp only [step, hn, hc, hr]
  rfl

/-- A connection over a running loop that was just accepted. -/
def accepted : Uvconnect :=
  let s := create (fun _ => .loopStop) fun _ => ⟨⟨none, 0, 0, 0⟩, ⟨none, 0⟩⟩
  { s with
    threads := {
      loop := { s.threads.loop with bRunning := true, position := .polling }
      call := update (update s.threads.call 1 .starting) 1 .idle }
    bConnectSuccess := true
    ploop := true
    stream := some 0
    tcps := 1
    tcp := update s.tcp 0 .connected }

theorem reach_accepted : (connection w).Reach (assumed w) [] accepted := by
  have h₀ : (connection w).Reach (assumed w) [] (create (fun _ => .loopStop) fun _ =>
    ⟨⟨none, 0, 0, 0⟩, ⟨none, 0⟩⟩) := .start ⟨_, _, rfl⟩
  have h₁ := h₀.step (a := Act.registerloopAndStream) trivial rfl
  have h₂ := h₁.step (a := Act.run 1) trivial rfl
  exact h₂.step (a := Act.setRunning 1) trivial rfl

/-- Every payload can come to be written: its request is executed with nothing before it. -/
theorem exists_write (hp : Bounded w p) : ∃ tr s s' es r h st bytes,
    (connection w).Reach (assumed w) tr s ∧ assumed w s (.perform 0) ∧
      s.step w (.perform 0) = some (s', es) ∧ .uvWrite r h st bytes ∈ es ∧
      latest (payloadOf r) tr = some p := by
  have hlen : p.length < 2 ^ w := Nat.lt_of_le_of_lt (Nat.le_add_right ..) hp
  let ok : Answer := ⟨true, 1, fun _ => 0⟩
  obtain ⟨b₀, hb₀⟩ : ∃ b₀, Safebuffer.create ok = some b₀ := ⟨_, rfl⟩
  let s₁ : Uvconnect := { accepted with call := update accepted.call 1 (.checked p) }
  let s₂ : Uvconnect := { s₁ with
    send := update s₁.send 0 { s₁.send 0 with tsafebuf := b₀ }
    created := 1
    mapSend := insert 0 ∅
    call := update s₁.call 1 (.obtained 0 p) }
  have h₁ : (connection w).Reach (assumed w) [] s₁ :=
    reach_accepted.step (a := Act.wirteData 1 p) hp (if_pos ⟨⟨rfl, rfl⟩, hlen⟩)
  have ho : s₁.step w (.takeSend 1 ok) = some (s₂, [.obtained 1 0 p]) :=
    step_takeSend hb₀ rfl rfl rfl
  have h₂ : (connection w).Reach (assumed w) [.obtained 1 0 p] s₂ :=
    h₁.step (a := Act.takeSend 1 ok) rfl ho
  have hi₂ := (recordInv_of_reach h₂).2
  obtain ⟨-, hempty, -⟩ := hi₂.obtained 1 0 p rfl
  obtain ⟨b, hb, -⟩ := (hi₂.buffers 0 Nat.zero_lt_one).readmem p ok
    (by rw [hempty, Nat.zero_add]; exact hp) (show ok.ok = true from rfl)
  let s₃ : Uvconnect := { s₂ with
    send := update s₂.send 0 { s₂.send 0 with tsafebuf := b }
    call := update s₂.call 1 (.requesting (.tcpWrite 0)) }
  have hf : s₂.step w (.readmem 1 ok ok) = some (s₃, [.filled 1 0 true]) :=
    step_readmem hb rfl rfl
  have h₃ := h₂.step (a := Act.readmem 1 ok ok) ⟨rfl, rfl⟩ hf
  have h₄ := h₃.step (a := Act.addReq 1) trivial rfl
  have h₅ := h₄.step (a := Act.lock 1) trivial rfl
  have h₆ := h₅.step (a := Act.turn (.fire 0)) trivial rfl
  exact ⟨_, _, _, _, 0, 0, .connected, _, h₆, fun _ _ => rfl, rfl, List.mem_singleton.mpr rfl, rfl⟩

/-- A payload of `2 ^ 32` bytes is not written. -/
theorem not_writesIntact : ¬ WritesIntact 64 (assumed 64) := by
  intro hintact
  have hlen : (List.replicate (2 ^ 32) (0 : UInt8)).length = 2 ^ 32 := List.length_replicate
  have hp : Bounded 64 (List.replicate (2 ^ 32) 0) := by
    rw [Bounded, hlen]
    decide
  obtain ⟨tr, s, s', es, r, h, st, bytes, hr, hg, hs, he, hpay⟩ := exists_write hp
  obtain ⟨hl, hi⟩ := recordInv_of_reach hr
  obtain ⟨p, hp', hiff⟩ := hi.uvWrite_iff hl hg hs he
  obtain rfl := Option.some.inj (hp'.symm.trans hpay)
  have hbytes := ((hintact tr s hr).2 _ s' es hg hs).2 r h st bytes he
  have hlt := hiff.mp (Option.some.inj (hbytes.symm.trans hpay))
  exact absurd (hlen ▸ hlt) (Nat.lt_irrefl _)

end UvWrapper.Uvconnect
