import UvWrapper.Connect.Calls
import UvWrapper.Connect.Moves

/-! # Reconnecting on request

`Reconnnect` sets `m_bReconect` before it knows whether the loop takes its request, and the
close callback clears it before it knows whether the loop takes the next one. A ledger keeps
account of each call, from its beginning to the close callback of the stream closed for it.
-/

namespace UvWrapper.Uvconnect

open Function Memory Transition

variable {w : ℕ} {s s' : Uvconnect} {a : Act} {es tr : List Event} {t h : ℕ} {req : Req}

/-! ## The flag -/

theorem PerformCases.bReconect {err : ℤ} (h : PerformCases s err req s' es) :
    s'.bReconect = s.bReconect := by
  cases h <;> rfl

theorem ReadCases.bReconect {nread : ℤ} (h : ReadCases s nread s' es) :
    s'.bReconect = s.bReconect := by
  cases h <;> rfl

theorem ClosedCases.bReconect (hc : ClosedCases s h s' es) : s'.bReconect = false := by
  cases hc with
  | done hr => exact hr
  | _ => rfl

/-- `Reconnnect` sets the flag, the close callback clears it. -/
def flagAfter (s : Uvconnect) : Act → Bool
  | .request _ .reconnnect => true
  | .closeCb _ => false
  | _ => s.bReconect

theorem bReconect_step (hs : s.step w a = some (s', es)) : s'.bReconect = s.flagAfter a := by
  cases step_cases hs with
  | loop a b th les hl => cases hl <;> rfl
  | obtained t ma buf r s₁ _ ht =>
    obtain ⟨b, -, -, -, rfl⟩ | ⟨rest, -, rfl⟩ := takeSend_cases ht <;> rfl
  | requesting t f s₁ req _ hb =>
    cases f <;> obtain ⟨rfl, -⟩ := Prod.mk.inj hb <;> rfl
  | requestRejected t f hidle =>
    cases f with
    | reconnnect => simp [step, begin, hidle] at hs
    | _ => rfl
  | perform req err => exact (perform_cases { s with body := none } req err).bReconect
  | readCb h nread => exact (readDone_cases s nread).bReconect
  | writeCb r status =>
    unfold written
    split <;> rfl
  | closeCb h => exact (closed_cases s h).bReconect
  | _ => rfl

/-! ## The ledger -/

/-- How far a call of `Reconnnect` has come: it has set the flag on the thread `t`; `AddReq` has
refused its request or put it on a handle; the loop thread has entered its `CloseConnect`, which
has closed the stream, whose close callback has run. -/
inductive Stage
  | asking (t : ℕ)
  | refused
  | waiting (h : Option ℕ)
  | entered
  | closing (x : Option ℕ)
  | closed
  deriving DecidableEq

def Event.returnedTo (t : ℕ) : Event → Option LoopErr
  | .returned u _ err => if u = t then some err else none
  | _ => none

def Event.taken : Event → Option ℕ
  | .loop (.accepted h _) => some h
  | _ => none

/-- The loop accepts a connect request of this connection. -/
def Event.dials : Event → Bool
  | .loop (.accepted _ ⟨.tcpConnect, some .connect⟩) => true
  | _ => false

namespace Stage

def succeeded : Stage → Bool
  | .asking _ | .refused => false
  | .waiting _ | .entered | .closing _ | .closed => true

def executed : Stage → Bool
  | .closing _ | .closed => true
  | .asking _ | .refused | .waiting _ | .entered => false

/-- What becomes of a call in a step from `s`. -/
def after (s : Uvconnect) (a : Act) (es : List Event) (c : Stage) : Stage :=
  match c, a with
  | .asking t, _ =>
    match es.findSome? (Event.returnedTo t) with
    | some .noErr => .waiting (es.findSome? Event.taken)
    | some _ => .refused
    | none => .asking t
  | .waiting h, .turn (.fire x) => if h = some x then .entered else .waiting h
  | .entered, .perform _ =>
    if s.body = some .closeConnect then .closing s.stream else .entered
  | .closing x, .closeCb y => if x = some y then .closed else .closing x
  | c, _ => c

end Stage

/-- A call of `Reconnnect`; it is served once a close callback has queued a connection after its
`CloseConnect`. -/
structure Reconnection where
  stage : Stage
  served : Bool
  deriving DecidableEq

def redials (a : Act) (es : List Event) : Bool :=
  match a with
  | .closeCb _ => es.any Event.dials
  | _ => false

namespace Reconnection

/-- The call has returned true and is not yet served. -/
def Due (c : Reconnection) : Prop := c.stage.succeeded = true ∧ c.served = false

instance (c : Reconnection) : Decidable c.Due := inferInstanceAs (Decidable (_ ∧ _))

def after (s : Uvconnect) (a : Act) (es : List Event) (c : Reconnection) : Reconnection where
  stage := c.stage.after s a es
  served := c.served || (redials a es && c.stage.executed)

end Reconnection

/-- The calls of `Reconnnect`, and whether one has begun since the last close callback. -/
structure Ledger where
  calls : List Reconnection
  asked : Bool

def entry (s : Uvconnect) (a : Act) (es : List Event) (g : Ledger) : Ledger :=
  let calls := g.calls.map (Reconnection.after s a es)
  match a with
  | .request t .reconnnect => ⟨calls ++ [⟨.asking t, false⟩], true⟩
  | .closeCb _ => ⟨calls, false⟩
  | _ => ⟨calls, g.asked⟩

def audited (w : ℕ) : System (Uvconnect × Ledger) Act Event :=
  (connection w).observed ⟨[], false⟩ entry

/-- In the runs whose steps satisfy `G` a close callback queues a connection only for a
`Reconnnect` that has returned true and is not yet served, and a `Reconnnect` that has returned
true is served once the close callback of the stream closed for it has run. -/
structure ReconnectsAsAsked (w : ℕ) (G : Uvconnect × Ledger → Act → Prop) : Prop where
  asked : ∀ tr p x p' es, (audited w).Reach G tr p → G p (.closeCb x) →
    (audited w).step p (.closeCb x) = some (p', es) → es.any Event.dials = true →
    ∃ c ∈ p.2.calls, c.Due
  served : ∀ tr p, (audited w).Reach G tr p →
    ∀ c ∈ p.2.calls, c.stage = .closed → c.served = true

/-- `AddReq` on the loop thread would accept a request. -/
def Accepts (s : Uvconnect) : Prop :=
  s.ploop = true ∧ s.threads.loop.bRunning = true ∧ s.threads.loop.dAsync ≠ []

instance (s : Uvconnect) : Decidable s.Accepts := inferInstanceAs (Decidable (_ ∧ _ ∧ _))

/-- Where the flag is set in a close callback and the loop accepts requests, a `Reconnnect` is
due; where the stream was closed for one that is due, the flag is set and the loop accepts
requests. -/
def finds (p : Uvconnect × Ledger) : Act → Prop
  | .closeCb x => (p.2.asked = true ∧ p.1.Accepts → ∃ c ∈ p.2.calls, c.Due) ∧
    ∀ c ∈ p.2.calls, c.stage = .closing (some x) → c.served = false →
      p.2.asked = true ∧ p.1.Accepts
  | _ => True

/-- Where the flag is set in a close callback, a `Reconnnect` is due exactly if the loop accepts
requests, and whatever is due has had its stream closed; and the flag is still set where the loop
takes a handle for a `Reconnnect`. -/
def answers (p : Uvconnect × Ledger) : Act → Prop
  | .closeCb _ => p.2.asked = true →
    ((∃ c ∈ p.2.calls, c.Due) ↔ p.1.Accepts) ∧
      ∀ c ∈ p.2.calls, c.Due → c.stage.executed = true
  | .lock t => (∃ c ∈ p.2.calls, c.stage = .asking t) → p.1.threads.loop.dAsync ≠ [] →
    p.2.asked = true
  | _ => True

instance (p : Uvconnect × Ledger) : DecidablePred (answers p) := fun a =>
  match a with
  | .closeCb _ => inferInstanceAs (Decidable (_ → (_ ↔ _) ∧ _))
  | .lock _ => inferInstanceAs (Decidable (_ → _ → _))
  | .registerConnect | .registerloopAndStream | .setEventHandler _ | .setIPAndAddr _ | .run _
  | .setRunning _ | .stop _ | .wirteData _ _ | .takeSend _ _ | .readmem _ _ _ | .request _ _
  | .addReq _ | .turn _ | .perform _ | .connectCb _ _ | .readCb _ _ | .writeCb _ _ =>
    .isTrue trivial

/-! ## Close callbacks -/

theorem dials_submit (l : Uvloop Req) :
    ((l.submit (.addReq .tcpConnect (some .connect))).2.map Event.loop).any Event.dials = true ↔
      l.dAsync ≠ [] := by
  rcases Uvloop.submit_cases l (.addReq .tcpConnect (some Req.connect)) with
    ⟨hd, he⟩ | ⟨x, l', htake, he⟩
  · simp [he, hd, Event.dials]
  · have hne : l.dAsync ≠ [] := by
      rintro hd
      simp [Uvloop.takeAsync_eq_none.mpr hd] at htake
    simp [he, hne, Event.dials, Uvloop.Fill.apply]

theorem ClosedCases.dials_iff (hc : ClosedCases s h s' es) :
    es.any Event.dials = true ↔ s.bReconect = true ∧ s.Accepts := by
  cases hc with
  | done hr => simp [hr]
  | fault hr hp => simp [hp, Accepts, Event.dials]
  | refused hr hp hrun => simp [hrun, Accepts, Event.dials]
  | submitted loop les hr hp hrun hsub =>
    have hles : les = (s.threads.loop.submit (.addReq .tcpConnect (some .connect))).2 := by
      rw [hsub]
    rw [hles, dials_submit]
    simp [hr, hp, hrun, Accepts]

theorem step_closeCb (hs : s.step w (.closeCb h) = some (s', es)) : ClosedCases s h s' es := by
  cases step_cases hs with
  | loop _ _ _ _ hl => cases hl
  | closeCb => exact closed_cases s h

theorem entry_asked (s : Uvconnect) (a : Act) (es : List Event) {g : Ledger}
    (hg : g.asked = s.bReconect) : (s.entry a es g).asked = s.flagAfter a := by
  cases a with
  | request t f =>
    cases f with
    | reconnnect => rfl
    | _ => exact hg
  | closeCb h => rfl
  | _ => exact hg

theorem asked_of_reach {G : Uvconnect × Ledger → Act → Prop} {p : Uvconnect × Ledger}
    (h : (audited w).Reach G tr p) : p.2.asked = p.1.bReconect := by
  refine h.stateInvariant (I := fun p => p.2.asked = p.1.bReconect) ?_ ?_
  · rintro ⟨s, g⟩ ⟨⟨garbage, send, rfl⟩, rfl⟩
    rfl
  · intro tr p a p' es _ hi _ hs
    obtain ⟨hs, hp⟩ := System.observed_step.mp hs
    rw [hp, entry_asked _ _ _ hi]
    exact (bReconect_step hs).symm

theorem dials_iff {G : Uvconnect × Ledger → Act → Prop} {p p' : Uvconnect × Ledger}
    (h : (audited w).Reach G tr p) {x : ℕ} (hs : (audited w).step p (.closeCb x) = some (p', es)) :
    es.any Event.dials = true ↔ p.2.asked = true ∧ p.1.Accepts := by
  have hs' : p.1.step w (.closeCb x) = some (p'.1, es) := (System.observed_step.mp hs).1
  rw [asked_of_reach h]
  exact (step_closeCb hs').dials_iff

/-! ## Calls -/

theorem mem_entry {g : Ledger} {c : Reconnection} (h : c ∈ (s.entry a es g).calls) :
    (∃ c₀ ∈ g.calls, c = c₀.after s a es) ∨
      (c.stage.succeeded = false ∧ ∃ t, a = .request t .reconnnect) := by
  have hmap : c ∈ g.calls.map (Reconnection.after s a es) →
      ∃ c₀ ∈ g.calls, c = c₀.after s a es := by
    intro hm
    obtain ⟨c₀, h₀, rfl⟩ := List.mem_map.mp hm
    exact ⟨c₀, h₀, rfl⟩
  cases a with
  | request t f =>
    cases f with
    | reconnnect =>
      rcases List.mem_append.mp h with hm | hm
      · exact .inl (hmap hm)
      · obtain rfl := List.mem_singleton.mp hm
        exact .inr ⟨rfl, t, rfl⟩
    | _ => exact .inl (hmap h)
  | _ => exact .inl (hmap h)

theorem mem_entry_of_mem {g : Ledger} {c : Reconnection} (h : c ∈ g.calls) :
    c.after s a es ∈ (s.entry a es g).calls := by
  have hm : c.after s a es ∈ g.calls.map (Reconnection.after s a es) := List.mem_map_of_mem h
  cases a with
  | request t f =>
    cases f with
    | reconnnect => exact List.mem_append_left _ hm
    | _ => exact hm
  | _ => exact hm

theorem Stage.after_eq_closed {c : Stage} (h : c.after s a es = .closed) :
    c = .closed ∨ ∃ x, c = .closing (some x) ∧ a = .closeCb x := by
  unfold after at h
  split at h
  · split at h <;> cases h
  · split at h <;> cases h
  · split at h <;> cases h
  · next x y =>
    split at h
    · next hx => exact .inr ⟨y, by rw [hx], rfl⟩
    · cases h
  · exact .inl h

theorem returnedTo_eq_noErr (hs : s.step w a = some (s', es))
    (h : es.findSome? (Event.returnedTo t) = some .noErr) :
    a = .lock t ∧ s.threads.loop.dAsync ≠ [] := by
  obtain ⟨e, he, hret⟩ := List.exists_of_findSome?_eq_some h
  obtain ⟨req, rfl⟩ : ∃ req, e = .returned t req .noErr := by
    cases e with
    | returned u req err =>
      obtain ⟨rfl, herr⟩ := Option.ite_none_right_eq_some.mp hret
      obtain rfl := Option.some.inj herr
      exact ⟨req, rfl⟩
    | _ => cases hret
  cases call_cases hs with
  | quiet _ _ _ hq => cases hq _ he
  | rejected | obtained | filled => cases List.mem_singleton.mp he
  | addReq _ u req' th les =>
    have hm := mem_of_isCall he rfl
    split at hm
    · cases hm
    · cases List.mem_singleton.mp hm
  | lock _ u th les =>
    have hm := mem_of_isCall he rfl
    unfold lockResult at hm
    split at hm
    · obtain ⟨rfl, -, herr⟩ := Event.returned.inj (List.mem_singleton.mp hm)
      refine ⟨rfl, fun hd => ?_⟩
      rw [if_pos hd] at herr
      cases herr
    · cases hm

theorem Stage.succeeded_after {c : Stage} (hs : s.step w a = some (s', es))
    (h : (c.after s a es).succeeded = true) : c.succeeded = true ∨
      ∃ t, c = .asking t ∧ a = .lock t ∧ s.threads.loop.dAsync ≠ [] := by
  cases c with
  | asking t =>
    simp only [after] at h
    split at h
    · next hret => exact .inr ⟨t, rfl, returnedTo_eq_noErr hs hret⟩
    · cases h
    · cases h
  | refused => cases h
  | waiting | entered | closing | closed => exact .inl rfl

/-- What is due after a step was due before it, or the loop has taken a handle for it, and it has
not been served in the step. -/
theorem Reconnection.Due.of_after {c : Reconnection} (hs : s.step w a = some (s', es))
    (h : (c.after s a es).Due) : (redials a es && c.stage.executed) = false ∧ (c.Due ∨
      ∃ t, c.stage = .asking t ∧ a = .lock t ∧ s.threads.loop.dAsync ≠ []) := by
  obtain ⟨hsucc, hserved⟩ := h
  obtain ⟨hs₀, hr⟩ := Bool.or_eq_false_iff.mp hserved
  exact ⟨hr, (Stage.succeeded_after hs hsucc).imp_left fun h => ⟨h, hs₀⟩⟩

/-! ## Runs -/

/-- A stream that was closed for a call is closed, and the call is served if its close callback
queues a connection. -/
theorem served_step {g : Ledger} (hclosed : ∀ c ∈ g.calls, c.stage = .closed → c.served = true)
    (hfind : ∀ x, a = .closeCb x → ∀ c ∈ g.calls, c.stage = .closing (some x) →
      c.served = false → es.any Event.dials = true) :
    ∀ c ∈ (s.entry a es g).calls, c.stage = .closed → c.served = true := by
  intro c hc hst
  rcases mem_entry hc with ⟨c₀, h₀, rfl⟩ | ⟨hsucc, -⟩
  · rcases Stage.after_eq_closed hst with h | ⟨x, h, rfl⟩
    · simp [Reconnection.after, hclosed c₀ h₀ h]
    · cases hserved : c₀.served with
      | true => simp [Reconnection.after, hserved]
      | false =>
        have hd := hfind x rfl c₀ h₀ h hserved
        simp [Reconnection.after, redials, hd, h, Stage.executed]
  · rw [hst] at hsucc
    cases hsucc

/-- A call that is due has left the flag set. -/
theorem asked_of_due {p : Uvconnect × Ledger} (h : (audited w).Reach answers tr p)
    {c : Reconnection} (hc : c ∈ p.2.calls) (hdue : c.Due) : p.2.asked = true := by
  have hinv : (∃ c ∈ p.2.calls, c.Due) → p.2.asked = true := by
    refine h.stateInvariant (I := fun p => (∃ c ∈ p.2.calls, c.Due) → p.2.asked = true) ?_ ?_
    · rintro ⟨s, g⟩ ⟨-, rfl⟩ ⟨c, hc, -⟩
      cases hc
    · rintro tr p a p' es hr hi hg hs ⟨c, hc, hdue⟩
      obtain ⟨hs', hp⟩ := System.observed_step.mp hs
      rw [hp] at hc ⊢
      rcases mem_entry hc with ⟨c₀, h₀, rfl⟩ | ⟨hsucc, -⟩
      · obtain ⟨hserved, hdue₀ | ⟨t, hst, rfl, hd⟩⟩ := hdue.of_after hs'
        · have hasked := hi ⟨c₀, h₀, hdue₀⟩
          rw [entry_asked _ _ _ (asked_of_reach hr)]
          cases a with
          | closeCb x =>
            -- the callback has found a loop that accepts its request, and served the call
            obtain ⟨hiff, hexec⟩ := hg hasked
            have hdials := (dials_iff hr hs).mpr ⟨hasked, hiff.mp ⟨c₀, h₀, hdue₀⟩⟩
            simp [redials, hdials, hexec c₀ h₀ hdue₀] at hserved
          | request t f =>
            cases f <;> first | rfl | exact (asked_of_reach hr).symm.trans hasked
          | _ => exact (asked_of_reach hr).symm.trans hasked
        · exact hg ⟨c₀, h₀, hst⟩ hd
      · cases hsucc.symm.trans hdue.1
  exact hinv ⟨c, hc, hdue⟩

theorem finds_of_answers (w : ℕ) : (audited w).Always answers finds := by
  intro tr p a p' es hr hg hs
  cases a with
  | closeCb x =>
    refine ⟨fun ⟨hasked, hacc⟩ => (hg hasked).1.mpr hacc, fun c hc hst hserved => ?_⟩
    have hdue : c.Due := ⟨by rw [hst]; rfl, hserved⟩
    have hasked := asked_of_due hr hc hdue
    exact ⟨hasked, (hg hasked).1.mp ⟨c, hc, hdue⟩⟩
  | _ => trivial

theorem reconnectsAsAsked_iff (w : ℕ) (G : Uvconnect × Ledger → Act → Prop) :
    ReconnectsAsAsked w G ↔ (audited w).Always G finds := by
  constructor
  · intro hasked tr p a p' es hr hg hs
    cases a with
    | closeCb x =>
      refine ⟨fun hf => hasked.asked tr p x p' es hr hg hs ((dials_iff hr hs).mpr hf), ?_⟩
      intro c hc hst hserved
      rw [← dials_iff hr hs]
      have hp : p'.2 = p.1.entry (.closeCb x) es p.2 := (System.observed_step.mp hs).2
      have hmem : c.after p.1 (.closeCb x) es ∈ p'.2.calls := hp ▸ mem_entry_of_mem hc
      have hafter := hasked.served _ p' (hr.step hg hs) _ hmem
        (by simp [Reconnection.after, Stage.after, hst])
      simpa [Reconnection.after, redials, hserved, hst, Stage.executed] using hafter
    | _ => trivial
  · intro hfinds
    constructor
    case asked =>
      intro tr p x p' es hr hg hs hd
      exact (hfinds tr p _ p' es hr hg hs).1 ((dials_iff hr hs).mp hd)
    case served =>
      intro tr p hr
      refine hr.stateInvariant
        (I := fun p => ∀ c ∈ p.2.calls, c.stage = .closed → c.served = true) ?_ ?_
      · rintro ⟨s, g⟩ ⟨-, rfl⟩ c hc
        cases hc
      · intro tr p a p' es hr hi hg hs
        rw [(System.observed_step.mp hs).2]
        refine served_step hi ?_
        rintro x rfl c hc hst hserved
        exact (dials_iff hr hs).mpr ((hfinds tr p _ p' es hr hg hs).2 c hc hst hserved)

/-- Reconnecting is as asked exactly if the flag that each close callback finds is what is asked
for; and it is, as long as the flag outlives the calls that set it, each close callback that finds
it serves what is due, and something is due then. -/
theorem reconnectsAsAsked (w : ℕ) :
    (∀ G, ReconnectsAsAsked w G ↔ (audited w).Always G finds) ∧ ReconnectsAsAsked w answers :=
  ⟨reconnectsAsAsked_iff w, (reconnectsAsAsked_iff w answers).mpr (finds_of_answers w)⟩

example : ∃ tr p, (audited 64).Reach answers tr p ∧ p.2.calls = [⟨.closed, true⟩] := by
  obtain ⟨tr, p, hr, hp⟩ := System.exists_run_of_exec (M := audited 64) (G := answers)
    (s := (create (fun _ => .loopStop) fun _ => ⟨⟨none, 0, 0, 0⟩, ⟨none, 0⟩⟩, ⟨[], false⟩))
    [.registerloopAndStream, .run 1, .setRunning 1, .request 1 .reconnnect, .addReq 1, .lock 1,
      .turn (.fire 0), .perform 0, .turn .tcbReturn, .turn .recycle, .closeCb 0]
    (p := fun p _ => decide (p.2.calls = [⟨.closed, true⟩])) (by decide +kernel)
  exact ⟨tr, p, ⟨_, ⟨⟨_, _, rfl⟩, rfl⟩, hr⟩, of_decide_eq_true hp⟩

/-- A `Reconnnect` is refused because the loop is not running. The loop is started, the
connection is closed, and the close callback dials. -/
theorem not_reconnectsAsAsked :
    ¬ ReconnectsAsAsked 64 (anyStep (Uvconnect × Ledger) Act) := by
  intro hasked
  obtain ⟨tr, p, hr, hp⟩ := System.exists_run_of_exec (M := audited 64)
    (G := anyStep (Uvconnect × Ledger) Act)
    (s := (create (fun _ => .loopStop) fun _ => ⟨⟨none, 0, 0, 0⟩, ⟨none, 0⟩⟩, ⟨[], false⟩))
    [.registerloopAndStream, .request 1 .reconnnect, .addReq 1, .run 1, .setRunning 1,
      .request 1 .closeConnection, .addReq 1, .lock 1, .turn (.fire 0), .perform 0,
      .turn .tcbReturn, .turn .recycle]
    (p := fun p tr => decide (.returned 1 .closeConnect .stop ∈ tr ∧
      p.2.calls = [⟨.refused, false⟩] ∧
      ((audited 64).step p (.closeCb 0)).map (fun q => q.2.any Event.dials) = some true))
    (by decide +kernel)
  obtain ⟨-, hcalls, hd⟩ := of_decide_eq_true hp
  obtain ⟨⟨p', es⟩, hs, hd⟩ := Option.map_eq_some_iff.mp hd
  obtain ⟨c, hc, hdue⟩ := hasked.asked tr p 0 p' es ⟨_, ⟨⟨_, _, rfl⟩, rfl⟩, hr⟩ trivial hs hd
  rw [hcalls] at hc
  obtain rfl := List.mem_singleton.mp hc
  cases hdue.1

end UvWrapper.Uvconnect
