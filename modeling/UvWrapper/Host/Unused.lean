import UvWrapper.Connect.Route
import UvWrapper.Host.Views

/-! # Connections that nobody uses

A connection on a shared loop whose functions nobody calls stays as its constructor has left it,
and nothing that happens is its own, whatever the others do.
-/

namespace UvWrapper

open Function Transition

namespace Uvconnect

variable {w : ℕ} {s s' : Uvconnect} {a : Act} {es tr : List Event} {req : Req} {p : Place}

def unused (_ : Uvconnect) : Act → Prop
  | .run _ | .setRunning _ | .stop _ | .request _ (.other _ _) | .addReq _ | .lock _ | .turn _
  | .perform _ => True
  | .registerConnect | .registerloopAndStream | .setEventHandler _ | .setIPAndAddr _
  | .wirteData _ _ | .takeSend _ _ | .readmem _ _ _ | .request _ .connectToServer
  | .request _ .closeConnection | .request _ .reconnnect | .request _ .startReadData
  | .request _ .stopReadData | .connectCb _ _ | .readCb _ _ | .writeCb _ _ | .closeCb _ => False

def Event.isOwn : Event → Bool
  | .loop _ => false
  | .returned _ req _ => req.own
  | _ => true

/-- No request of the connection is anywhere, and its fields are those of a new one. -/
structure Unused (s : Uvconnect) : Prop where
  asked : ∀ req p, req.own = true → ¬ s.At req p
  fresh : ∃ garbage send, Host.memberOf s = Host.memberOf (create garbage send)

theorem unused_create (garbage : ℕ → EType) (send : ℕ → StSend) :
    (create garbage send).Unused := by
  constructor
  case asked =>
    rintro req (t | t | h | -) - hat
    · cases hat
    · obtain ⟨e, he⟩ := hat
      cases he
    · cases hat
    · cases hat
  case fresh => exact ⟨garbage, send, rfl⟩

theorem Unused.body (hu : s.Unused) (hb : s.body = some req) : ∃ e id, req = .other e id := by
  cases req with
  | other e id => exact ⟨e, id, rfl⟩
  | _ => exact (hu.asked _ .body rfl hb).elim

theorem Unused.at_of_threads (hu : s.Unused) {b : Uvloop.Act Req} {th : Uvloop.Threads Req}
    {les : List (Uvloop.Event Req)} (ht : s.threads.step b = some (th, les))
    (hb : ∀ t e, b ≠ .call t (.addReq e (some req))) (hown : req.own = true) :
    ¬ At { s with threads := th } req p := by
  intro hat
  rcases hat.of_threads ht with h | ⟨t, e, -, he⟩ | ⟨t, x, -, -, hl, -⟩
  · exact hu.asked req p hown h
  · exact hb t e he
  · exact hu.asked req _ hown hl

theorem Unused.asked_step (hu : s.Unused) (hg : unused s a) (hs : s.step w a = some (s', es))
    (hown : req.own = true) : ¬ s'.At req p := by
  intro hat
  cases step_cases hs with
  | loop a b th les hl ht =>
    exact hu.at_of_threads ht (by rintro t e rfl; cases hl) hown hat
  | requesting t f s₁ req' hi hb =>
    cases f with
    | other e id =>
      obtain ⟨rfl, hreq⟩ := Prod.mk.inj hb
      obtain rfl := Option.some.inj hreq
      have hne : Writer.requesting (.other e id) ≠ .requesting req := by
        rintro he
        rw [← Writer.requesting.inj he] at hown
        cases hown
      exact hu.asked req p hown (hat.of_call (t := t) rfl hne rfl rfl)
    | _ => exact hg
  | requestRejected t f => cases f with
    | other => exact hu.asked req p hown (hat.of_eq rfl rfl rfl)
    | _ => exact hg
  | addReqFault => exact hu.asked req p hown (hat.of_eq rfl rfl rfl)
  | addReq t req' th les hc ht =>
    have hbefore : At { s with threads := th } req p :=
      hat.of_call (t := t) (c := .idle) rfl (by simp) rfl rfl
    refine hu.at_of_threads ht ?_ hown hbefore
    rintro u e he
    injection he with hut hf
    injection hf with _ hf
    obtain rfl := Option.some.inj hf
    exact hu.asked req' (.caller t) hown hc
  | lock t th les ht => exact hu.at_of_threads ht (by simp) hown hat
  | turn b th les ht =>
    have hinside : ¬ At { s with threads := th } req p := hu.at_of_threads ht (by simp) hown
    cases p with
    | caller | locking | handle => exact hinside hat
    | body =>
      rcases nextBody_cases hat with ⟨x, y, rfl, -, hx⟩ | ⟨-, hb⟩
      · exact hu.asked req (.handle x) hown hx
      · exact hu.asked req .body hown hb
  | perform req' err hb =>
    obtain ⟨e, id, rfl⟩ := hu.body hb
    cases p with
    | caller t => exact hu.asked req (.caller t) hown hat
    | locking t => exact hu.asked req (.locking t) hown hat
    | handle h => exact hu.asked req (.handle h) hown hat
    | body => cases hat
  | registerConnect | registerloopAndStream | setEventHandler | setIPAndAddr | rejected
  | obtainFault | fillFault | checked | obtained | filled | connectCb | readCb | writeCb
  | closeCb => exact hg

theorem own_of_fault {t : ℕ}
    (hs : s.step w (.addReq t) = some ({ s with crashed := true }, [.fault])) :
    ∃ req, s.call t = .requesting req ∧ req.own = true := by
  obtain ⟨hn, hs⟩ := Option.ite_none_left_eq_some.mp hs
  dsimp only at hs
  split at hs
  · next req hc =>
    split at hs
    · next hp => exact ⟨req, hc, (Bool.and_eq_true_iff.mp hp).1⟩
    · obtain ⟨⟨s₁, es₁⟩, hp, he⟩ := Option.map_eq_some_iff.mp hs
      obtain ⟨th, les, -, rfl, -⟩ := loopStep_cases hp
      exact (hn (congrArg (fun q => q.1.crashed) he)).elim
  · contradiction

theorem Unused.kept (hu : s.Unused) (hg : unused s a) (hs : s.step w a = some (s', es)) :
    Host.memberOf s' = Host.memberOf s ∧ ∀ e ∈ es, e.isOwn = false := by
  have hloop : ∀ {les : List (Uvloop.Event Req)}, ∀ e ∈ les.map Event.loop, e.isOwn = false := by
    intro les e he
    obtain ⟨l, -, rfl⟩ := List.mem_map.mp he
    rfl
  cases step_cases hs with
  | loop a b th les => exact ⟨rfl, hloop⟩
  | requesting t f s₁ req hi hb =>
    cases f with
    | other e id =>
      obtain ⟨rfl, -⟩ := Prod.mk.inj hb
      exact ⟨rfl, by simp⟩
    | _ => exact hg.elim
  | requestRejected t f hi =>
    cases f with
    | other e id =>
      obtain ⟨-, hs⟩ := Option.ite_none_left_eq_some.mp hs
      obtain ⟨-, hs⟩ := Option.ite_none_right_eq_some.mp hs
      simp [begin] at hs
    | _ => exact hg.elim
  | addReqFault t =>
    obtain ⟨req, hc, hown⟩ := own_of_fault hs
    exact (hu.asked req (.caller t) hown hc).elim
  | addReq t req th les hc ht =>
    have hreq : req.own = false := Bool.not_eq_true _ ▸ fun ho => hu.asked req (.caller t) ho hc
    refine ⟨rfl, fun e he => ?_⟩
    rcases List.mem_append.mp he with he | he
    · exact hloop e he
    · split at he
      · cases he
      · obtain rfl := List.mem_singleton.mp he
        exact hreq
  | lock t th les ht =>
    refine ⟨rfl, fun e he => ?_⟩
    rcases List.mem_append.mp he with he | he
    · exact hloop e he
    · unfold lockResult at he
      split at he
      · next e' req hc =>
        obtain rfl := List.mem_singleton.mp he
        have : ¬ req.own = true := fun ho => hu.asked req (.locking t) ho ⟨e', hc⟩
        simpa [Event.isOwn] using this
      · cases he
  | turn b th les => exact ⟨rfl, hloop⟩
  | perform req err hb =>
    obtain ⟨e, id, rfl⟩ := hu.body hb
    exact ⟨rfl, by simp [perform]⟩
  | registerConnect | registerloopAndStream | setEventHandler | setIPAndAddr | rejected
  | obtainFault | fillFault | checked | obtained | filled | connectCb | readCb | writeCb
  | closeCb => exact hg.elim

theorem Unused.step (hu : s.Unused) (hg : unused s a) (hs : s.step w a = some (s', es)) :
    s'.Unused where
  asked _ _ hown := hu.asked_step hg hs hown
  fresh := by
    obtain ⟨garbage, send, hf⟩ := hu.fresh
    exact ⟨garbage, send, (hu.kept hg hs).1.trans hf⟩

theorem Unused.run (hu : s.Unused) (h : (connection w).Run unused s tr s') :
    s'.Unused ∧ ∀ e ∈ tr, e.isOwn = false := by
  refine h.invariant (I := fun tr s => s.Unused ∧ ∀ e ∈ tr, e.isOwn = false) ⟨hu, by simp⟩ ?_
  rintro tr s a s' es ⟨hu, hq⟩ hg hs
  refine ⟨hu.step hg hs, fun e he => ?_⟩
  exact (List.mem_append.mp he).elim (hq e) ((hu.kept hg hs).2 e)

end Uvconnect

namespace Host

variable {w i : ℕ} {s s' : Host} {a : Act} {es : List Event}

theorem unused_lenient : Lenient Uvconnect.unused where
  request _ _ _ _ _ := trivial
  addReq _ _ := trivial
  lock _ _ := trivial

theorem eq_of_shown {e f : Uvconnect.Event} (h : shown f = some e) : f = e := by
  cases f with
  | returned t req err => exact Option.some.inj (Option.ite_none_right_eq_some.mp h).2
  | _ => exact Option.some.inj h

theorem unused_step (hi : s.Inv) (hu : (s.view i).Unused) (hg : admits Uvconnect.unused i s a)
    (hs : s.step w a = some (s', es)) :
    (s'.view i).Unused ∧ ∀ e ∈ es.filterMap (Event.seen i), e.isOwn = false := by
  obtain ⟨-, fs, hrun, hfs⟩ := matches_view unused_lenient w i s a s' es hi hg hs
  obtain ⟨hu', hown⟩ := hu.run hrun
  refine ⟨hu', fun e he => ?_⟩
  rw [← hfs] at he
  obtain ⟨f, hf, hshown⟩ := List.mem_filterMap.mp he
  obtain rfl := eq_of_shown hshown
  exact hown f hf

theorem unused_run (hi : s.Inv) (hu : (s.view i).Unused) {tr : List Event}
    (h : (hosting w).Run (admits Uvconnect.unused i) s tr s') :
    (s'.view i).Unused ∧ ∀ e ∈ tr.filterMap (Event.seen i), e.isOwn = false := by
  refine (h.invariant (I := fun tr s => s.Inv ∧ (s.view i).Unused ∧
    ∀ e ∈ tr.filterMap (Event.seen i), e.isOwn = false) ⟨hi, hu, by simp⟩ ?_).2
  rintro tr s a s' es ⟨hi, hu, hq⟩ hg hs
  obtain ⟨hu', hq'⟩ := unused_step hi hu hg hs
  refine ⟨hi.step hs, hu', fun e he => ?_⟩
  rw [List.filterMap_append] at he
  exact (List.mem_append.mp he).elim (hq e) (hq' e)

end Host

end UvWrapper
