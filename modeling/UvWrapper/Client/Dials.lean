import UvWrapper.Client.Basic
import UvWrapper.Connect.Reconnect
import UvWrapper.Connect.Route
import UvWrapper.Connect.Streams

/-! # The address that is dialled

`ConnectToServer` takes an address and does nothing with it: no function of `TcpClient` calls
`SetIPAndAddr`, and `Connect` gives to `uv_tcp_connect` what the block behind `m_pAddr` held when
it was allocated.
-/

namespace UvWrapper.Uvconnect

variable {w : ℕ} {s s' : Uvconnect} {a : Act} {es : List Event} {req : Req}
  {h : ℕ} {q : Option Sockaddr}

theorem PerformCases.addr {err : ℤ} (hp : PerformCases s err req s' es) : s'.addr = s.addr := by
  cases hp <;> rfl

theorem ReadCases.addr {nread : ℤ} (hr : ReadCases s nread s' es) : s'.addr = s.addr := by
  cases hr <;> rfl

theorem ClosedCases.addr (hc : ClosedCases s h s' es) : s'.addr = s.addr := by
  cases hc <;> rfl

theorem addr_of_step (hs : s.step w a = some (s', es)) (ha : ∀ q, a ≠ .setIPAndAddr q) :
    s'.addr = s.addr := by
  cases step_cases hs with
  | setIPAndAddr q => exact (ha q rfl).elim
  | obtained t ma buf r s₁ _ ht =>
    obtain ⟨b, -, -, -, rfl⟩ | ⟨rest, -, rfl⟩ := takeSend_cases ht <;> rfl
  | requesting t f s₁ req _ hb => cases f <;> (obtain ⟨rfl, -⟩ := Prod.mk.inj hb; rfl)
  | perform req err => exact (perform_cases { s with body := none } req err).addr
  | readCb h nread => exact (readDone_cases s nread).addr
  | writeCb r status =>
    unfold written
    split <;> rfl
  | closeCb h => exact (closed_cases s h).addr
  | _ => rfl

theorem StreamMove.dialled {l : Link} (hm : StreamMove s a l es)
    (he : .tcpConnect h q ∈ es) :
    (∃ err, a = .perform err) ∧ s.body = some .connect ∧ q = s.addr := by
  cases hm with
  | stay _ _ _ hq | closed _ _ _ hq => cases hq _ he
  | dial err hb =>
    obtain ⟨-, rfl⟩ : h = s.tcps ∧ q = s.addr := by simpa using he
    exact ⟨⟨err, rfl⟩, hb, rfl⟩
  | write r x err bytes es _ _ hq =>
    rcases List.mem_cons.mp he with he | he
    · cases he
    · cases hq _ he
  | connected | data | lost =>
    unfold notify at he
    split at he <;> simp at he
  | _ => simp at he

theorem events_of_dial {err : ℤ} (hs : s.step w (.perform err) = some (s', es))
    (hb : s.body = some .connect) : es = [.tcpInit s.tcps, .tcpConnect s.tcps s.addr] := by
  cases step_cases hs with
  | loop _ _ _ _ hl => cases hl
  | perform req err hb' =>
    cases hb.symm.trans hb'
    rfl

end UvWrapper.Uvconnect

namespace UvWrapper.TcpClient

open Function Transition Uvconnect

/-- The address that the request on each handle was asked for, and the one that the loop thread
is executing. -/
structure Ledger where
  queued : ℕ → Option Sockaddr
  current : Option Sockaddr

/-- `AddReq` takes the first free handle for the thread that leaves its lock; the loop thread
enters the callback of a handle. -/
def note (s : TcpClient) (a : Act) (_ : List Uvconnect.Event) (g : Ledger) : Ledger :=
  match a with
  | .conn (.lock t) =>
    match (s.call t).asks, s.conn.threads.loop.dAsync.head? with
    | some q, some h => { g with queued := update g.queued h (some q) }
    | _, _ => g
  | .conn (.turn (.fire h)) => { g with current := g.queued h }
  | _ => g

def dialling (w : ℕ) : System (TcpClient × Ledger) Act Uvconnect.Event :=
  (client w).observed ⟨fun _ => none, none⟩ note

variable {α : Type} {ip4Addr : Sockaddr → α} {memory : α} {w : ℕ} {s s' : TcpClient}
  {g : Ledger} {p p' : TcpClient × Ledger} {a : Act} {es tr : List Uvconnect.Event} {t : ℕ}
  {G : TcpClient × Ledger → Act → Prop}

/-- Each `uv_tcp_connect` gets what `uv_ip4_addr` makes of the address that the call of
`ConnectToServer` was given which added the request. `memory` is what the block of `m_pAddr` held
when it was allocated. -/
def DialsAsked (w : ℕ) (ip4Addr : Sockaddr → α) (memory : α)
    (G : TcpClient × Ledger → Act → Prop) : Prop :=
  ∀ tr p a p' es, (dialling w).Reach G tr p → G p a → (dialling w).step p a = some (p', es) →
    ∀ h addr, .tcpConnect h addr ∈ es →
      ∃ q, p.2.current = some q ∧ (addr.map ip4Addr).getD memory = ip4Addr q

def Dotted (ip : String) : Prop :=
  ∃ a b c d : ℕ, a < 256 ∧ b < 256 ∧ c < 256 ∧ d < 256 ∧
    ip = toString a ++ "." ++ toString b ++ "." ++ toString c ++ "." ++ toString d

def validCalls (_ : TcpClient × Ledger) : Act → Prop
  | .connectToServer _ ip port _ => Dotted ip ∧ port < 65536
  | _ => True

/-- When `Connect` is executed, the memory holds the address by chance. -/
def memoryHolds (ip4Addr : Sockaddr → α) (memory : α) (p : TcpClient × Ledger) : Act → Prop
  | .conn (.perform _) => p.1.conn.body = some .connect →
      ∀ q, p.2.current = some q → memory = ip4Addr q
  | _ => True

def Ledger.asked (g : Ledger) (s : TcpClient) : Place → Option Sockaddr
  | .caller t | .locking t => (s.call t).asks
  | .handle h => g.queued h
  | .body => g.current

/-- The address is never written, and it is known for which address each connect request was
made. -/
structure DialInv (s : TcpClient) (g : Ledger) : Prop where
  addr : s.conn.addr = none
  bReconect : s.conn.bReconect = false
  known : ∀ place, s.conn.At .connect place → g.asked s place ≠ none

/-! ## Threads -/

theorem not_idle_of_at {c : Uvconnect} {place : Place} (h : c.At .connect place)
    (hp : place = .caller t ∨ place = .locking t) : ¬ c.Idle t := by
  rintro ⟨hc, ht⟩
  rcases hp with rfl | rfl
  · cases hc.symm.trans h
  · obtain ⟨e, he⟩ := h
    cases ht.symm.trans he

theorem leave_of_not_idle {c : Uvconnect} {b : Uvconnect.Act} (h : ¬ c.Idle t) :
    s.leave c b t = s.call t := by
  have hthread : ∀ u, (if c.Idle u then update s.call u .idle else s.call) t = s.call t := by
    intro u
    split
    · next hu =>
      have htu : t ≠ u := fun he => h (he ▸ hu)
      exact update_of_ne htu ..
    · rfl
  cases b with
  | addReq u | lock u => exact hthread u
  | _ => rfl

theorem Passage.asks {b : Uvconnect.Act} {c c' : Caller} (hp : Passage t b c c') :
    c.asks = none := by
  cases hp <;> rfl

theorem Passage.addr {b : Uvconnect.Act} {c c' : Caller} (hp : Passage t b c c') :
    ∀ q, b ≠ .setIPAndAddr q := by
  cases hp <;> nofun

theorem Passage.flagAfter {b : Uvconnect.Act} {c c' : Caller} (hp : Passage t b c c')
    (conn : Uvconnect) : conn.flagAfter b = conn.bReconect := by
  cases hp <;> rfl

theorem asks_update {c : Caller} (hc : (s.call t).asks = none) {u : ℕ}
    (hu : (s.call u).asks ≠ none) : (update s.call t c u).asks ≠ none := by
  have hut : u ≠ t := by
    rintro rfl
    exact hu hc
  rwa [update_of_ne hut]

/-! ## The ledger -/

theorem queued_note (s : TcpClient) (a : Act) (es : List Uvconnect.Event) {h : ℕ}
    (hq : g.queued h ≠ none) : (note s a es g).queued h ≠ none := by
  unfold note
  split
  · split
    · next q x _ _ =>
      rcases eq_or_ne h x with rfl | hx
      · simp
      · simpa [hx] using hq
    · exact hq
  · exact hq
  · exact hq

theorem note_of_ne (ha : ∀ b, a ≠ .conn b) : note s a es g = g := by
  cases a with
  | conn b => exact (ha b rfl).elim
  | _ => rfl

theorem current_note {b : Uvconnect.Act} (hb : ∀ h, b ≠ .turn (.fire h)) :
    (note s (.conn b) es g).current = g.current := by
  unfold note
  split
  · split <;> rfl
  · next he => exact (hb _ (Act.conn.inj he)).elim
  · rfl

/-! ## Steps -/

theorem DialInv.aside (hi : DialInv s g) {c : Caller} (hc : (s.call t).asks = none) :
    DialInv { s with call := update s.call t c } g := by
  refine ⟨hi.addr, hi.bReconect, fun place hp => ?_⟩
  have hk := hi.known place hp
  cases place with
  | caller u | locking u => exact asks_update hc hk
  | handle | body => exact hk

theorem DialInv.passage (hi : DialInv s g) {b : Uvconnect.Act} {c : Caller} {conn : Uvconnect}
    (hp : Passage t b (s.call t) c) (hs : s.conn.step w b = some (conn, es)) :
    DialInv { conn, call := update s.call t c } g := by
  constructor
  case addr => exact (addr_of_step hs hp.addr).trans hi.addr
  case bReconect => rw [bReconect_step hs, hp.flagAfter, hi.bReconect]
  case known =>
    intro place hat
    cases At.step hat hs hi.bReconect nofun with
    | stays _ _ h =>
      have hk := hi.known place h
      cases place with
      | caller u | locking u => exact asks_update hp.asks hk
      | handle | body => exact hk
    | made u f =>
      generalize s.call t = c' at hp
      cases hp with
      | ask ip port => simp [Ledger.asked, Caller.asks]
    | submitted | accepted | entered =>
      generalize s.call t = c' at hp
      cases hp

theorem DialInv.conn (hi : DialInv s g) {b : Uvconnect.Act} {conn : Uvconnect} (ho : s.opens b)
    (hs : s.conn.step w b = some (conn, es)) :
    DialInv { conn, call := s.leave conn b } (note s (.conn b) es g) := by
  have hthread : ∀ {t place}, conn.At .connect place →
      place = .caller t ∨ place = .locking t → (s.call t).asks ≠ none →
      (s.leave conn b t).asks ≠ none := by
    intro t place hat hp hk
    rwa [leave_of_not_idle (not_idle_of_at hat hp)]
  constructor
  case addr =>
    apply (addr_of_step hs _).trans hi.addr
    rintro q rfl
    exact ho
  case bReconect =>
    rw [bReconect_step hs]
    cases b with
    | request => exact ho.elim
    | closeCb => rfl
    | _ => exact hi.bReconect
  case known =>
    intro place hat
    cases At.step hat hs hi.bReconect nofun with
    | stays _ _ h hfire =>
      have hk := hi.known place h
      cases place with
      | caller u => exact hthread hat (.inl rfl) hk
      | locking u => exact hthread hat (.inr rfl) hk
      | handle x => exact queued_note s _ es hk
      | body =>
        rw [Ledger.asked, current_note (hfire rfl)]
        exact hk
    | made => exact ho.elim
    | submitted u h => exact hthread hat (.inr rfl) (hi.known _ h)
    | accepted u x h hd =>
      obtain ⟨q, hq⟩ := Option.ne_none_iff_exists'.mp (hi.known _ h)
      have hn : note s (.conn (.lock u)) es g =
          { g with queued := update g.queued x (some q) } := by
        simp only [note, show (s.call u).asks = some q from hq, hd]
      simp [Ledger.asked, hn]
    | entered x h => exact hi.known _ h

theorem DialInv.step (hi : DialInv s g) (hs : s.step w a = some (s', es)) :
    DialInv s' (note s a es g) := by
  cases step_cases hs with
  | aside _ t c hc _ ha =>
    rw [note_of_ne ha]
    exact hi.aside hc
  | passage _ t b c conn es hp h ha =>
    rw [note_of_ne ha]
    exact hi.passage hp h
  | conn b conn es ho h => exact hi.conn ho h

theorem dialInv_create (garbage : ℕ → EType) (send : ℕ → StSend) :
    DialInv (create garbage send) ⟨fun _ => none, none⟩ := by
  refine ⟨rfl, rfl, ?_⟩
  rintro (t | t | x | -) h
  · cases h
  · obtain ⟨e, h⟩ := h
    cases h
  · cases h
  · cases h

theorem dialInv_of_reach (h : (dialling w).Reach G tr p) : DialInv p.1 p.2 := by
  apply h.stateInvariant (I := fun p => DialInv p.1 p.2)
  · rintro ⟨s, g⟩ ⟨⟨garbage, send, rfl⟩, rfl⟩
    exact dialInv_create garbage send
  · rintro tr p a ⟨s', g'⟩ es - hi - hs
    obtain ⟨hstep, rfl⟩ := System.observed_step.mp hs
    exact hi.step hstep

/-! ## Dialling -/

theorem dialled (hi : DialInv p.1 p.2) (hs : p.1.step w a = some (s', es)) {h : ℕ}
    {addr : Option Sockaddr} (he : .tcpConnect h addr ∈ es) :
    (∃ err, a = .conn (.perform err)) ∧ p.1.conn.body = some .connect ∧ addr = none := by
  cases step_cases hs with
  | aside => cases he
  | passage _ t b c conn es hp hb =>
    obtain ⟨⟨err, rfl⟩, -⟩ := (streamMove hb).dialled he
    generalize p.1.call t = c' at hp
    cases hp
  | conn b conn es _ hb =>
    obtain ⟨⟨err, rfl⟩, hbody, rfl⟩ := (streamMove hb).dialled he
    exact ⟨⟨err, rfl⟩, hbody, hi.addr⟩

/-- The client dials what it was asked to in exactly the runs in which, each time, the memory
holds that address already. -/
theorem dialsAsked_iff (w : ℕ) (ip4Addr : Sockaddr → α) (memory : α)
    (G : TcpClient × Ledger → Act → Prop) :
    DialsAsked w ip4Addr memory G ↔ (dialling w).Always G (memoryHolds ip4Addr memory) := by
  constructor
  · intro h tr p a p' es hr hg hs
    have hi := dialInv_of_reach hr
    cases a with
    | conn b =>
      cases b with
      | perform err =>
        intro hb q hq
        have hstep : p.1.step w (.conn (.perform err)) = some (p'.1, es) :=
          (System.observed_step.mp hs).1
        have he : .tcpConnect p.1.conn.tcps none ∈ es := by
          rw [events_of_dial (conn_cases hstep).2 hb, hi.addr]
          simp
        obtain ⟨q', hq', hm⟩ := h tr p _ p' es hr hg hs _ _ he
        obtain rfl := Option.some.inj (hq.symm.trans hq')
        exact hm
      | _ => trivial
    | _ => trivial
  · intro h tr p a p' es hr hg hs x addr he
    have hi := dialInv_of_reach hr
    have hstep : p.1.step w a = some (p'.1, es) := (System.observed_step.mp hs).1
    obtain ⟨⟨err, rfl⟩, hb, rfl⟩ := dialled hi hstep he
    obtain ⟨q, hq⟩ := Option.ne_none_iff_exists'.mp (hi.known .body hb)
    exact ⟨q, hq, h tr p _ p' es hr hg hs hb q hq⟩

def sampleCall (_ : TcpClient × Ledger) : Act → Prop
  | .connectToServer _ ip port _ => ip = "127.0.0.1" ∧ port = 12396
  | _ => True

instance : DecidableRel sampleCall := fun _ a =>
  match a with
  | .connectToServer _ ip port _ => inferInstanceAs (Decidable (ip = "127.0.0.1" ∧ port = 12396))
  | .run _ | .setRunning _ | .next _ | .conn _ => .isTrue trivial

theorem sampleCall.valid {p : TcpClient × Ledger} {a : Act} (h : sampleCall p a) :
    validCalls p a := by
  cases a with
  | connectToServer t ip port b =>
    obtain ⟨rfl, rfl⟩ := h
    exact ⟨⟨127, 0, 0, 1, by decide, by decide, by decide, by decide, by decide⟩, by decide⟩
  | _ => trivial

/-- The client of the sample, in memory that is all zeros. -/
theorem not_dialsAsked : ¬ DialsAsked 32
    (fun q => (2, q.2, (q.1.splitOn ".").map String.toNat?)) (0, 0, []) validCalls := by
  intro h
  let c : TcpClient := create (fun _ => .loopStop) fun _ => ⟨⟨none, 0, 0, 0⟩, none, 0⟩
  obtain ⟨tr, p, hr, hp⟩ := System.exists_run_of_exec (M := dialling 32) (G := sampleCall)
    (s := (c, ⟨fun _ => none, none⟩))
    [.connectToServer 1 "127.0.0.1" 12396 true, .run 1, .setRunning 1, .next 1, .next 1, .next 1,
      .conn (.addReq 1), .conn (.lock 1), .conn (.turn (.fire 0))]
    (p := fun p _ => ((dialling 32).step p (.conn (.perform 0))).any
      fun q : (TcpClient × Ledger) × List Uvconnect.Event => decide (.tcpConnect 0 none ∈ q.2))
    (by decide +kernel)
  have hr' : (dialling 32).Reach validCalls tr p :=
    ⟨_, ⟨⟨_, _, rfl⟩, rfl⟩, hr.mono fun _ _ hc => hc.valid⟩
  obtain ⟨⟨p', es⟩, hs, he⟩ := (Option.any_eq_true _ _).mp hp
  obtain ⟨q, -, hm⟩ := h tr p (.conn (.perform 0)) p' es hr' trivial hs 0 none
    (of_decide_eq_true he)
  cases congrArg Prod.fst hm

end UvWrapper.TcpClient
