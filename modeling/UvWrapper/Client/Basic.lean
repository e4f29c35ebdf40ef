import UvWrapper.Connect.Basic

/-! # The client

The class `TcpClient`: a connection and the loop it is registered with, both its own. Nobody
else reaches the connection, so that what happens to it is what `ConnectToServer` and
`WriteData` do, the loop thread and libuv.
-/

namespace UvWrapper

open Function Transition

namespace TcpClient

/-- What a thread is doing in `ConnectToServer`: nothing; past the test of `IsRunning`, where
the loop was not running; in `run`; before each of the three functions of the connection; in
the last of them. -/
inductive Caller
  | idle
  | starting (ip : String) (port : ℕ) (evHandler : Bool)
  | launched (ip : String) (port : ℕ) (evHandler : Bool)
  | registering (ip : String) (port : ℕ) (evHandler : Bool)
  | handling (ip : String) (port : ℕ) (evHandler : Bool)
  | connecting (ip : String) (port : ℕ)
  | asking (ip : String) (port : ℕ)
  deriving DecidableEq

def Caller.asks : Caller → Option Sockaddr
  | .asking ip port => some (ip, port)
  | _ => none

end TcpClient

/-- `m_pConn` with `m_pLoop`, and the threads in `ConnectToServer`. -/
structure TcpClient where
  conn : Uvconnect
  call : ℕ → TcpClient.Caller

namespace TcpClient

def create (garbage : ℕ → EType) (send : ℕ → StSend) : TcpClient where
  conn := .create garbage send
  call _ := .idle

/-- The steps: `ConnectToServer` up to its first test, its `run`, and statement by statement;
the steps of the connection that nobody calls by name. -/
inductive Act
  | connectToServer (t : ℕ) (ip : String) (port : ℕ) (evHandler : Bool)
  | run (t : ℕ)
  | setRunning (t : ℕ)
  | next (t : ℕ)
  | conn (a : Uvconnect.Act)

/-- `WriteData` is `wirteData` of the connection. The other public functions of the connection
are called from `ConnectToServer` only, or not at all. -/
def opens (s : TcpClient) : Uvconnect.Act → Prop
  | .wirteData t _ => s.call t = .idle
  | .takeSend _ _ | .readmem _ _ _ | .addReq _ | .lock _ | .turn _ | .perform _
  | .connectCb _ _ | .readCb _ _ | .writeCb _ _ | .closeCb _ => True
  | .registerConnect | .registerloopAndStream | .setEventHandler _ | .setIPAndAddr _ | .run _
  | .setRunning _ | .stop _ | .request _ _ => False

instance (s : TcpClient) : DecidablePred s.opens := fun a =>
  match a with
  | .wirteData t _ => inferInstanceAs (Decidable (s.call t = .idle))
  | .takeSend _ _ | .readmem _ _ _ | .addReq _ | .lock _ | .turn _ | .perform _
  | .connectCb _ _ | .readCb _ _ | .writeCb _ _ | .closeCb _ => .isTrue trivial
  | .registerConnect | .registerloopAndStream | .setEventHandler _ | .setIPAndAddr _ | .run _
  | .setRunning _ | .stop _ | .request _ _ => .isFalse id

def through (w : ℕ) (s : TcpClient) (a : Uvconnect.Act) (t : ℕ) (c : Caller) :
    Option (TcpClient × List Uvconnect.Event) :=
  (s.conn.step w a).map fun p => ({ conn := p.1, call := update s.call t c }, p.2)

def leave (s : TcpClient) (conn : Uvconnect) : Uvconnect.Act → ℕ → Caller
  | .addReq t | .lock t => if conn.Idle t then update s.call t .idle else s.call
  | _ => s.call

/-- The next statement of `ConnectToServer`, behind the test and `run`. -/
def next (w : ℕ) (s : TcpClient) (t : ℕ) : Option (TcpClient × List Uvconnect.Event) :=
  match s.call t with
  | .registering ip port evHandler => s.through w .registerConnect t (.handling ip port evHandler)
  | .handling ip port evHandler => s.through w (.setEventHandler evHandler) t (.connecting ip port)
  | .connecting ip port => s.through w (.request t .connectToServer) t (.asking ip port)
  | _ => none

/-- Between two of these steps other threads may run. `run` tests `m_bRunning` again. -/
def step (w : ℕ) (s : TcpClient) (a : Act) : Option (TcpClient × List Uvconnect.Event) :=
  if s.conn.crashed then none
  else
    match a with
    | .connectToServer t ip port evHandler =>
      if s.call t = .idle ∧ s.conn.Idle t then
        some ({ s with
          call := update s.call t
            (if s.conn.threads.loop.bRunning then .registering ip port evHandler
              else .starting ip port evHandler) }, [])
      else none
    | .run t =>
      match s.call t with
      | .starting ip port evHandler =>
        if s.conn.threads.loop.bRunning then
          some ({ s with call := update s.call t (.registering ip port evHandler) }, [])
        else s.through w (.run t) t (.launched ip port evHandler)
      | _ => none
    | .setRunning t =>
      match s.call t with
      | .launched ip port evHandler =>
        s.through w (.setRunning t) t (.registering ip port evHandler)
      | _ => none
    | .next t => s.next w t
    | .conn a =>
      if s.opens a then
        (s.conn.step w a).map fun p => ({ conn := p.1, call := s.leave p.1 a }, p.2)
      else none

def Init (s : TcpClient) : Prop := ∃ garbage send, s = create garbage send

def client (w : ℕ) : System TcpClient Act Uvconnect.Event := ⟨Init, step w⟩

variable {w : ℕ} {s s' : TcpClient} {a : Act} {es : List Uvconnect.Event} {t : ℕ}

/-- The steps of the connection that a thread takes from one place in `ConnectToServer` to
another. -/
inductive Passage (t : ℕ) : Uvconnect.Act → Caller → Caller → Prop
  | run (ip : String) (port : ℕ) (b : Bool) :
      Passage t (.run t) (.starting ip port b) (.launched ip port b)
  | setRunning (ip : String) (port : ℕ) (b : Bool) :
      Passage t (.setRunning t) (.launched ip port b) (.registering ip port b)
  | register (ip : String) (port : ℕ) (b : Bool) :
      Passage t .registerConnect (.registering ip port b) (.handling ip port b)
  | handle (ip : String) (port : ℕ) (b : Bool) :
      Passage t (.setEventHandler b) (.handling ip port b) (.connecting ip port)
  | ask (ip : String) (port : ℕ) :
      Passage t (.request t .connectToServer) (.connecting ip port) (.asking ip port)

inductive StepCases (w : ℕ) (s : TcpClient) : Act → TcpClient → List Uvconnect.Event → Prop
  | aside (a : Act) (t : ℕ) (c : Caller) : (s.call t).asks = none → c.asks = none →
      (∀ b, a ≠ .conn b) → StepCases w s a { s with call := update s.call t c } []
  | passage (a : Act) (t : ℕ) (b : Uvconnect.Act) (c : Caller) (conn : Uvconnect)
      (es : List Uvconnect.Event) : Passage t b (s.call t) c → s.conn.step w b = some (conn, es) →
      (∀ b, a ≠ .conn b) → StepCases w s a { conn, call := update s.call t c } es
  | conn (b : Uvconnect.Act) (conn : Uvconnect) (es : List Uvconnect.Event) : s.opens b →
      s.conn.step w b = some (conn, es) →
      StepCases w s (.conn b) { conn, call := s.leave conn b } es

theorem through_cases {b : Uvconnect.Act} {c c' : Caller}
    (hs : s.through w b t c = some (s', es)) (hc : s.call t = c') (hp : Passage t b c' c)
    (ha : ∀ b, a ≠ .conn b) : StepCases w s a s' es := by
  obtain ⟨⟨conn, fs⟩, hstep, he⟩ := Option.map_eq_some_iff.mp hs
  obtain ⟨rfl, rfl⟩ := Prod.mk.inj he
  exact .passage a t b c conn fs (hc ▸ hp) hstep ha

theorem step_cases (hs : s.step w a = some (s', es)) : StepCases w s a s' es := by
  obtain ⟨-, hs⟩ := Option.ite_none_left_eq_some.mp hs
  cases a with
  | connectToServer t ip port b =>
    obtain ⟨⟨hc, -⟩, hs⟩ := Option.ite_none_right_eq_some.mp hs
    obtain ⟨rfl, rfl⟩ := Prod.mk.inj (Option.some.inj hs)
    refine .aside _ t _ (by rw [hc]; rfl) ?_ nofun
    split <;> rfl
  | run t =>
    dsimp only at hs
    split at hs
    · next ip port b hc =>
      split at hs
      · obtain ⟨rfl, rfl⟩ := Prod.mk.inj (Option.some.inj hs)
        exact .aside _ t _ (by rw [hc]; rfl) rfl nofun
      · exact through_cases hs hc (.run ip port b) nofun
    · contradiction
  | setRunning t =>
    dsimp only at hs
    split at hs
    · next ip port b hc => exact through_cases hs hc (.setRunning ip port b) nofun
    · contradiction
  | next t =>
    dsimp only [next] at hs
    split at hs
    · next ip port b hc => exact through_cases hs hc (.register ip port b) nofun
    · next ip port b hc => exact through_cases hs hc (.handle ip port b) nofun
    · next ip port hc => exact through_cases hs hc (.ask ip port) nofun
    · contradiction
  | conn b =>
    obtain ⟨ho, hs⟩ := Option.ite_none_right_eq_some.mp hs
    obtain ⟨⟨conn, fs⟩, hstep, he⟩ := Option.map_eq_some_iff.mp hs
    obtain ⟨rfl, rfl⟩ := Prod.mk.inj he
    exact .conn b conn fs ho hstep

theorem conn_cases {b : Uvconnect.Act} (hs : s.step w (.conn b) = some (s', es)) :
    s.opens b ∧ s.conn.step w b = some (s'.conn, es) := by
  cases step_cases hs with
  | aside _ _ _ _ _ ha => exact (ha b rfl).elim
  | passage _ _ _ _ _ _ _ _ ha => exact (ha b rfl).elim
  | conn _ conn es ho h => exact ⟨ho, h⟩

theorem conn_of_step (hs : s.step w a = some (s', es)) :
    (s'.conn = s.conn ∧ es = []) ∨ ∃ b, s.conn.step w b = some (s'.conn, es) := by
  cases step_cases hs with
  | aside => exact .inl ⟨rfl, rfl⟩
  | passage _ t b c conn es _ h => exact .inr ⟨b, h⟩
  | conn b conn es _ h => exact .inr ⟨b, h⟩

end TcpClient

end UvWrapper
