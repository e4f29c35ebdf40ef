import UvWrapper.Uvcpp.Link
import UvWrapper.Uvcpp.SendBuffer

/-! # Closing and writing

`inner_close` is reached from a read error, a close and a stop. Its guard on the normal
status makes it close each established connection once. `write` has no such guard, and
hands whatever `_tcpHandle` is to `uv_try_write`.
-/

namespace UvWrapper.Uvcpp

open Transition

variable {s s' : Uvcpp} {a : Act} {es fs tr : List Event} {n : ℤ} {st st' : TcpState}
  {G : Uvcpp → Act → Prop}

/-! ## Each connection is closed at most once -/

def connectsOnce (s : Uvcpp) : Act → Prop
  | .connect .. => s.tcp = .raw
  | _ => True

instance : DecidableRel connectsOnce := fun s a =>
  match a with
  | .connect .. => inferInstanceAs (Decidable (s.tcp = .raw))
  | .run | .setAutoReconnect _ | .append .. | .insert _ | .close _ | .stop _ | .asyncSend _
  | .asyncEnter | .swap | .process _ | .asyncReturn | .connectCb _ | .readCb _ | .closeCb _
  | .asyncCloseCb | .leave => .isTrue trivial

def Event.isClose : Event → Bool
  | .uvClose _ _ => true
  | _ => false

def Event.isSuccess : Event → Bool
  | .connectCb status => status = 0
  | _ => false

def closes (tr : List Event) : ℕ := tr.countP Event.isClose

def successes (tr : List Event) : ℕ := tr.countP Event.isSuccess

theorem closes_filter (es : List Event) : closes (es.filter Event.isLink) = closes es := by
  rw [closes, List.countP_filter]
  apply List.countP_congr
  intro e _
  cases e <;> simp [Event.isClose, Event.isLink]

theorem successes_filter (es : List Event) :
    successes (es.filter Event.isLink) = successes es := by
  rw [successes, List.countP_filter]
  apply List.countP_congr
  intro e _
  cases e <;> simp [Event.isSuccess, Event.isLink]

def established (st : TcpState) : ℕ := if st = .connected then 1 else 0

theorem LinkInv.closes_move (h : s.LinkInv) (hm : s.LinkMove a st' fs) :
    closes fs + established st' = established s.tcp + successes fs := by
  cases hm with
  | stay => simp [closes, successes]
  | dial host port err hp =>
    have ht : s.tcp ≠ .connected := fun ht => by
      simpa [(h.down hp).1] using h.ok.normal_iff.mpr ht
    by_cases hz : err = 0 <;>
      simp [closes, successes, established, Event.isClose, Event.isSuccess, ht, hz]
  | established ht | refused _ ht _ =>
    simp_all [closes, successes, established, Event.isClose, Event.isSuccess]
  | close _ ht | closed _ ht =>
    simp [closes, successes, established, Event.isClose, Event.isSuccess, ht]
  | redial err ht =>
    by_cases hz : err = 0 <;>
      simp [closes, successes, established, Event.isClose, Event.isSuccess, ht, hz]

theorem LinkMove.close_live {handle : Bool} (hm : s.LinkMove a st' fs)
    (he : .uvClose handle st ∈ fs) : handle = true ∧ st = .connected := by
  cases hm <;> simp_all

/-- `uv_tcp_init` gets memory that no handle occupies: never used, in the call of `connect`
by the user; closed, in the close callback. -/
theorem LinkMove.init_free (hm : s.LinkMove a st' fs) (hg : connectsOnce s a)
    (he : .tcpInit st ∈ fs) : (st = .raw ∧ ∃ host port err, a = .connect host port err) ∨
      (st = .closed ∧ ∃ err, a = .closeCb err) := by
  cases hm with
  | dial host port err =>
    have hst : st = s.tcp := by simpa using he
    exact .inl ⟨hst.trans hg, host, port, err, rfl⟩
  | redial err => exact .inr ⟨by simpa using he, err, rfl⟩
  | _ => simp at he

structure ClosesWell (tr : List Event) (s : Uvcpp) : Prop where
  normal : s.statusNormal = true → s.tcpHandle = true ∧ s.tcp = .connected
  live : ∀ handle st, .uvClose handle st ∈ tr → handle = true ∧ st = .connected
  once : closes tr + s.statusNormal.toNat = successes tr
  reinit : ∀ a s' es, connectsOnce s a → s.step a = some (s', es) → ∀ st, .tcpInit st ∈ es →
    (st = .raw ∧ ∃ host port err, a = .connect host port err) ∨
      (st = .closed ∧ ∃ err, a = .closeCb err)

theorem LinkOk.toNat_normal (h : s.LinkOk) : s.statusNormal.toNat = established s.tcp := by
  rcases eq_or_ne s.tcp .connected with ht | ht
  · simp [established, ht, h.normal_iff.mpr ht]
  · have hn : s.statusNormal = false := by simpa using fun e => ht (h.normal_iff.mp e)
    simp [established, ht, hn]

/-- In every run in which the user connects once, the normal status is that of an open
handle, `uv_close` gets such a handle and is called once for each connection that is no
longer established, and the handle is initialised again only after its close. -/
theorem closesWell (h : client.Reach connectsOnce tr s) : ClosesWell tr s := by
  have hI := linkInv_of_reach h
  have hcount : closes tr + established s.tcp = successes tr ∧
      ∀ handle st, .uvClose handle st ∈ tr → handle = true ∧ st = .connected := by
    refine h.invariant (I := fun tr s => closes tr + established s.tcp = successes tr ∧
      ∀ handle st, .uvClose handle st ∈ tr → handle = true ∧ st = .connected) ?_ ?_
    · rintro s ⟨blk, -, rfl⟩
      exact ⟨rfl, fun _ _ he => absurd he List.not_mem_nil⟩
    · rintro tr s a s' es hr ⟨hc, hl⟩ - hs
      obtain ⟨-, hm⟩ := (linkInv_of_reach hr).step hs
      have hstep := (linkInv_of_reach hr).closes_move hm
      rw [closes_filter, successes_filter] at hstep
      constructor
      · simp only [closes, successes, List.countP_append] at hc hstep ⊢
        omega
      · intro handle st he
        rcases List.mem_append.mp he with he | he
        · exact hl handle st he
        · exact hm.close_live (List.mem_filter.mpr ⟨he, rfl⟩)
  constructor
  case normal =>
    intro hn
    have ht := hI.ok.normal_iff.mp hn
    exact ⟨hI.ok.handle_of_connected ht, ht⟩
  case live => exact hcount.2
  case once => exact hI.ok.toNat_normal ▸ hcount.1
  case reinit =>
    intro a s' es hg hs st he
    exact (hI.step hs).2.init_free hg (List.mem_filter.mpr ⟨he, rfl⟩)

/-- A connection that breaks, is closed and comes back. -/
theorem closesWell_example : ∃ tr s, client.Reach connectsOnce tr s ∧ closes tr = 1 ∧
    s.statusNormal = true ∧ ClosesWell tr s := by
  obtain ⟨tr, s, hr, hp⟩ := System.exists_run_of_exec (M := client) (G := connectsOnce)
    (s := create ⟨1, List.replicate clientBufferLen 0⟩)
    [.connect "127.0.0.1" 50000 0, .run, .connectCb 0, .readCb (-104), .closeCb 0, .connectCb 0]
    (p := fun s tr => decide (closes tr = 1 ∧ s.statusNormal = true)) (by decide +kernel)
  have h : client.Reach connectsOnce tr s := ⟨_, ⟨_, List.length_replicate, rfl⟩, hr⟩
  exact ⟨tr, s, h, (of_decide_eq_true hp).1, (of_decide_eq_true hp).2, closesWell h⟩

/-! ## Writing to a connection that is not there -/

/-- In the runs whose steps satisfy `G` each call of `uv_try_write` gets a connected
handle. -/
def WritesLive (G : Uvcpp → Act → Prop) : Prop :=
  ∀ tr s, client.Reach G tr s → ∀ handle st bytes n, .tryWrite handle st bytes n ∈ tr →
    handle = true ∧ st = .connected

/-- An `EV_SEND` is processed only with nothing to write or with the normal status. -/
def sendsWhenNormal (s : Uvcpp) : Act → Prop
  | .process _ => ∀ rest, s.point = .batch (.send :: rest) →
      s.sendOffset = 0 ∨ s.statusNormal = true
  | _ => True

/-- Of the calls of `uv_try_write` exactly those made with the normal status get a
connected handle. -/
theorem StepCases.live_iff {handle : Bool} {bytes : List UInt8} (h : StepCases s a s' es)
    (hl : s.LinkInv) (he : .tryWrite handle st bytes n ∈ es) :
    (handle = true ∧ st = .connected) ↔ s.statusNormal = true := by
  obtain ⟨rfl, rfl, -⟩ := h.tryWrite he
  rw [hl.ok.normal_iff]
  exact and_iff_right_of_imp hl.ok.handle_of_connected

/-- Every `uv_try_write` in the runs of `G` gets a connected handle if and only if every
`EV_SEND` of these runs is processed with nothing to write or with the normal status. -/
theorem writesLive_iff (G : Uvcpp → Act → Prop) :
    WritesLive G ↔ client.Always G sendsWhenNormal := by
  constructor
  · intro hlive tr s a s' es h hg hs
    cases a with
    | process n =>
      intro rest hp
      apply or_iff_not_imp_left.mpr
      intro h0
      have hstep : StepCases s (.process n) s' es := step_cases hs
      have he := hstep.tryWrite_mem hp h0
      rw [← hstep.live_iff (linkInv_of_reach h) he]
      exact hlive (tr ++ es) s' (h.step hg hs) _ _ _ _ (List.mem_append_right _ he)
    | _ => trivial
  · intro hn tr s h
    refine h.invariant (I := fun tr _ => ∀ handle st bytes n,
      .tryWrite handle st bytes n ∈ tr → handle = true ∧ st = .connected)
      (fun _ _ _ _ _ _ he => absurd he List.not_mem_nil) ?_
    intro tr s a s' es hr hi hg hs handle st bytes n he
    rcases List.mem_append.mp he with he | he
    · exact hi handle st bytes n he
    · have hstep : StepCases s a s' es := step_cases hs
      obtain ⟨-, -, h0, rfl, rest, hp⟩ := hstep.tryWrite he
      rw [hstep.live_iff (linkInv_of_reach hr) he]
      exact (hn tr s _ s' es hr hg hs rest hp).resolve_left h0

/-- A send whose event is processed while the connect request is outstanding, when
`_tcpHandle` is still null. -/
theorem not_writesLive : ¬ WritesLive (anyStep Uvcpp Act) := by
  intro h
  obtain ⟨tr, s, hr, hp⟩ := System.exists_run_of_exec (M := client)
    (G := anyStep Uvcpp Act) (s := create ⟨1, List.replicate clientBufferLen 0⟩)
    [.connect "127.0.0.1" 50000 0, .run,
      .append 1 [104, 105] ⟨true, 1, fun _ => 0⟩ ⟨true, 2, fun _ => 0⟩, .insert 1,
      .asyncSend 1, .asyncEnter, .swap, .process 0]
    (p := fun _ tr => decide (.tryWrite false .connecting [104, 105] 0 ∈ tr))
    (by decide +kernel)
  have hreach : client.Reach (anyStep Uvcpp Act) tr s :=
    ⟨_, ⟨_, List.length_replicate, rfl⟩, hr⟩
  exact Bool.false_ne_true (h tr s hreach _ _ _ _ (of_decide_eq_true hp)).1

end UvWrapper.Uvcpp
