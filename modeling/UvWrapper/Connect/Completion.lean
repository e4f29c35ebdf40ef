import UvWrapper.Connect.Transfers
import Mathlib.Data.Finset.Card

/-! # Accepted writes and their completion

Each call of `wirteData` that returns true puts a write on its way, and each `EV_WRITE` takes
one off it. The only other way off it is a `tcpWrite` that finds the connection gone and
returns early, with no event for the handler.
-/

namespace UvWrapper.Uvconnect

open Memory Ownership Transition

variable {w : ℕ} {s s' : Uvconnect} {a : Act} {es tr : List Event} {x : ℕ}
  {G : Uvconnect → Act → Prop}

def Event.isAccepted : Event → Bool
  | .returned _ (.tcpWrite _) .noErr => true
  | _ => false

def Event.isCompleted : Event → Bool
  | .event .write _ => true
  | _ => false

/-- `wirteData` is called with an event handler set, which is not taken back. -/
def hasHandler (s : Uvconnect) : Act → Prop
  | .wirteData _ _ => s.handler = true
  | .setEventHandler b => b = true
  | _ => True

instance (s : Uvconnect) : DecidablePred (hasHandler s) := fun a =>
  match a with
  | .wirteData _ _ => inferInstanceAs (Decidable (s.handler = true))
  | .setEventHandler b => inferInstanceAs (Decidable (b = true))
  | .registerConnect | .registerloopAndStream | .setIPAndAddr _ | .run _ | .setRunning _ | .stop _
  | .takeSend _ _ | .readmem _ _ _ | .request _ _ | .addReq _ | .lock _ | .turn _ | .perform _
  | .connectCb _ _ | .readCb _ _ | .writeCb _ _ | .closeCb _ => .isTrue trivial

/-- A write that is pending in the loop or in progress. -/
def OnTheWay (s : Uvconnect) (r : ℕ) : Prop := ∃ o, s.Holds o r ∧ ∀ t, o ≠ .caller t

def Settled (s : Uvconnect) : Prop := ∀ r, ¬ s.OnTheWay r

/-- In the runs whose steps satisfy `G`, whenever no write is on its way, `EV_WRITE` has been
delivered as often as `wirteData` has returned true. -/
def CompletesEach (w : ℕ) (G : Uvconnect → Act → Prop) : Prop :=
  ∀ tr s, (connection w).Reach (fun s a => dutiful s a ∧ hasHandler s a ∧ G s a) tr s →
    s.Settled → tr.countP Event.isAccepted = tr.countP Event.isCompleted

/-- `tcpWrite` finds the connection established. -/
def findsConnected (s : Uvconnect) : Act → Prop
  | .perform _ => ∀ r, s.Holds .body r → s.bConnectSuccess = true
  | _ => True

/-- A `tcpWrite` is executed that returns early. -/
def givesUp (s : Uvconnect) : Act → Bool
  | .perform _ => (s.body.bind recordOf).isSome && !s.bConnectSuccess
  | _ => false

def tallied (w : ℕ) : System (Uvconnect × ℕ) Act Event :=
  (connection w).observed 0 fun s a _ n => n + (s.givesUp a).toNat

theorem givesUp_iff : s.givesUp a = true ↔ ¬ s.findsConnected a := by
  cases a with
  | perform err =>
    simp only [givesUp, findsConnected, Holds, Bool.and_eq_true, Option.isSome_iff_exists,
      Option.bind_eq_some_iff]
    constructor
    · rintro ⟨⟨r, req, hb, hr⟩, hc⟩ h
      obtain rfl := recordOf_eq_some.mp hr
      simp [h r hb] at hc
    · intro h
      push Not at h
      obtain ⟨r, hb, hc⟩ := h
      exact ⟨⟨r, _, hb, rfl⟩, by simpa using hc⟩
  | _ => simp [givesUp, findsConnected]

theorem keepsRecord.findsConnected (h : s.keepsRecord a) : s.findsConnected a := by
  cases a with
  | perform err => exact h
  | _ => trivial

theorem givesUp_eq_false (h : s.findsConnected a) : s.givesUp a = false :=
  Bool.eq_false_iff.mpr fun hg => givesUp_iff.mp hg h

/-! ## One step -/

theorem countP_tally {p : Event → Bool} (hp : ∀ e, p e = true → e.isTally = true) :
    es.countP p = (es.filter Event.isTally).countP p := by
  rw [List.countP_filter]
  apply List.countP_congr
  intro e _
  simpa using hp e

theorem isTally_of_isAccepted (e : Event) (h : e.isAccepted = true) : e.isTally = true := by
  cases e with
  | returned t req err => cases req <;> cases err <;> first | rfl | cases h
  | _ => cases h

theorem isTally_of_isCompleted (e : Event) (h : e.isCompleted = true) : e.isTally = true := by
  cases e with
  | event ev arg => cases ev <;> first | rfl | cases h
  | _ => cases h

theorem onTheWay_of_passed {r : ℕ} {j : Holder} (hr : Reassigned s.Holds r (some j) s'.Holds)
    (hj : ∀ t, j ≠ .caller t) : s'.OnTheWay x ↔ x = r ∨ s.OnTheWay x := by
  rcases eq_or_ne x r with rfl | hxr
  · simpa [OnTheWay, hr.owner] using hj
  · simp [OnTheWay, hr.others _ x hxr, hxr]

theorem onTheWay_of_left {r : ℕ} {k : Option Holder} (hr : Reassigned s.Holds r k s'.Holds)
    (hk : ∀ o, k = some o → ∃ t, o = .caller t) : s'.OnTheWay x ↔ x ≠ r ∧ s.OnTheWay x := by
  rcases eq_or_ne x r with rfl | hxr
  · refine iff_of_false ?_ (by simp)
    rintro ⟨o, ho, hne⟩
    obtain ⟨t, ht⟩ := hk o ((hr.owner o).mp ho)
    exact hne t ht
  · simp [OnTheWay, hr.others _ x hxr, hxr]

theorem not_onTheWay_of_caller {t r : ℕ} (he : Exclusive s.Holds) (h : s.Holds (.caller t) r) :
    ¬ s.OnTheWay r := by
  rintro ⟨o, ho, hne⟩
  exact hne t (he _ _ _ ho h)

/-- What is on its way, with the writes accepted, is what is on its way afterwards, with the
writes completed and those given up. -/
theorem HolderMove.balance (hm : HolderMove s a s' es) (he : Exclusive s.Holds)
    (hh : ∀ o r, s.Holds o r → s.handler = true) {P : Finset ℕ} (hP : ∀ r, r ∈ P ↔ s.OnTheWay r) :
    ∃ P' : Finset ℕ, (∀ r, r ∈ P' ↔ s'.OnTheWay r) ∧
      P.card + es.countP Event.isAccepted =
        P'.card + es.countP Event.isCompleted + (s.givesUp a).toNat := by
  rw [countP_tally isTally_of_isAccepted, countP_tally isTally_of_isCompleted]
  cases hm with
  | same hk hiff _ htally =>
    refine ⟨P, fun r => ?_, by simp [htally, givesUp_eq_false hk.findsConnected]⟩
    rw [hP]
    exact exists_congr fun o => and_congr_left fun _ => (hiff o r).symm
  | obtain t r hk hno hr _ htally =>
    refine ⟨P, fun x => ?_, by simp [htally, givesUp_eq_false hk.findsConnected]⟩
    have hn : ¬ s.OnTheWay r := fun ⟨o, ho, _⟩ => hno o ho
    rw [onTheWay_of_left hr (by simp), hP, and_iff_right_of_imp]
    rintro hx rfl
    exact hn hx
  | accept t h r hk hheld hr _ htally =>
    have hn := not_onTheWay_of_caller he hheld
    refine ⟨insert r P, fun x => ?_, ?_⟩
    · rw [onTheWay_of_passed hr nofun, Finset.mem_insert, hP]
    · rw [Finset.card_insert_of_notMem fun hm => hn ((hP r).mp hm), htally,
        givesUp_eq_false hk.findsConnected]
      rfl
  | pass i j r hk hheld hi hj hr _ htally =>
    refine ⟨P, fun x => ?_, by simp [htally, givesUp_eq_false hk.findsConnected]⟩
    rw [onTheWay_of_passed hr hj, hP, or_iff_right_of_imp]
    rintro rfl
    exact ⟨i, hheld, hi⟩
  | refuse t r ha hk hheld hr _ htally =>
    have hn := not_onTheWay_of_caller he hheld
    have hgive : s.givesUp a = false := by
      cases a with
      | perform err => exact (ha err rfl).elim
      | _ => rfl
    refine ⟨P, fun x => ?_, by simp [htally, hgive]⟩
    rw [onTheWay_of_left hr nofun, hP, and_iff_right_of_imp]
    rintro hx rfl
    exact hn hx
  | giveUp r err ha hc hheld hr _ htally =>
    have hm : r ∈ P := (hP r).mpr ⟨.body, hheld, nofun⟩
    have hgive : s.givesUp a = true := by
      subst ha
      exact givesUp_iff.mpr fun h => absurd (hc.symm.trans (h r hheld)) Bool.false_ne_true
    refine ⟨P.erase r, fun x => ?_, ?_⟩
    · rw [onTheWay_of_left hr nofun, Finset.mem_erase, hP]
    · rw [htally, hgive, ← Finset.card_erase_add_one hm]
      rfl
  | complete r status hk hheld hr _ htally =>
    have hm : r ∈ P := (hP r).mpr ⟨.libuv, hheld, nofun⟩
    refine ⟨P.erase r, fun x => ?_, ?_⟩
    · rw [onTheWay_of_left hr nofun, Finset.mem_erase, hP]
    · rw [htally, notify, if_pos (hh _ r hheld), givesUp_eq_false hk.findsConnected,
        ← Finset.card_erase_add_one hm]
      rfl

/-! ## Whole runs -/

theorem handler_of_reach (h : (connection w).Reach (fun s a => dutiful s a ∧ hasHandler s a) tr s) :
    s.handler = true ∨ s.NoWriter := by
  refine h.stateInvariant (I := fun s => s.handler = true ∨ s.NoWriter) ?_ ?_
  · rintro s ⟨garbage, send, rfl⟩
    exact .inr ((accounted_create garbage send).registered.resolve_left nofun)
  · rintro tr s a s' es hr hi ⟨hg, hh⟩ hs
    have hl := (accounted_of_reach (fun _ _ hg => hg.1) hr).loop
    have hkeep : s.handler = true → s'.handler = true := by
      intro hset
      rcases (config_kept hs).2 with he | ha
      · exact he.trans hset
      · rw [ha] at hh
        exact hh
    rcases hi with hset | hno
    · exact .inl (hkeep hset)
    · rcases hno.step hl hg.2 hs with hno | ⟨t, buf, rfl, -⟩
      · exact .inr hno
      · exact .inl (hkeep hh)

theorem tally_of_reach {p : Uvconnect × ℕ}
    (h : (tallied w).Reach (fun p a => dutiful p.1 a ∧ hasHandler p.1 a) tr p) :
    ∃ P : Finset ℕ, (∀ r, r ∈ P ↔ p.1.OnTheWay r) ∧
      tr.countP Event.isAccepted = P.card + tr.countP Event.isCompleted + p.2 := by
  refine h.invariant (I := fun tr p => ∃ P : Finset ℕ, (∀ r, r ∈ P ↔ p.1.OnTheWay r) ∧
    tr.countP Event.isAccepted = P.card + tr.countP Event.isCompleted + p.2) ?_ ?_
  · rintro ⟨s, n⟩ ⟨⟨garbage, send, rfl⟩, rfl⟩
    have hno := (accounted_create garbage send).registered.resolve_left nofun
    exact ⟨∅, fun r => by simp [OnTheWay, hno.2], rfl⟩
  · rintro tr p a p' es hr ⟨P, hP, hcount⟩ hg hs
    obtain ⟨hs, hn⟩ := System.observed_step.mp hs
    have hreach := hr.forget (G := fun s a => dutiful s a ∧ hasHandler s a) fun _ _ hg => hg
    have hi := accounted_of_reach (fun _ _ hg => hg.1) hreach
    have hh : ∀ o r, p.1.Holds o r → p.1.handler = true := fun o r ho =>
      (handler_of_reach hreach).resolve_right fun hno => hno.2 o r ho
    obtain ⟨P', hP', hbal⟩ := (hi.move hg.1 hs).balance hi.pool.exclusive hh hP
    refine ⟨P', hP', ?_⟩
    simp only [List.countP_append, hn]
    omega

theorem Settled.iff_of_reach {p : Uvconnect × ℕ} (hset : p.1.Settled)
    (h : (tallied w).Reach (fun p a => dutiful p.1 a ∧ hasHandler p.1 a) tr p) :
    tr.countP Event.isAccepted = tr.countP Event.isCompleted ↔ p.2 = 0 := by
  obtain ⟨P, hP, hcount⟩ := tally_of_reach h
  have hempty : P = ∅ := Finset.eq_empty_of_forall_notMem fun r hr => hset r ((hP r).mp hr)
  rw [hcount, hempty, Finset.card_empty]
  omega

/-- Every accepted write is completed once as long as each `tcpWrite` finds the connection
established. In any run, whenever no write is on its way, all that were accepted are
completed exactly if no `tcpWrite` has returned early. -/
theorem completesEach (w : ℕ) : CompletesEach w findsConnected ∧
    ∀ tr p, (tallied w).Reach (fun p a => dutiful p.1 a ∧ hasHandler p.1 a) tr p →
      p.1.Settled →
      (tr.countP Event.isAccepted = tr.countP Event.isCompleted ↔ p.2 = 0) := by
  refine ⟨fun tr s h hset => ?_, fun tr p h hset => hset.iff_of_reach h⟩
  have hrec : ∃ n, (tallied w).Reach
      (fun p a => dutiful p.1 a ∧ hasHandler p.1 a ∧ findsConnected p.1 a) tr (s, n) := h.observe
  obtain ⟨n, hobs⟩ := hrec
  have hzero : n = 0 := by
    refine hobs.stateInvariant (I := fun p => p.2 = 0) (fun p hp => hp.2) ?_
    intro tr p a p' es _ hn hg hs
    rw [(System.observed_step.mp hs).2, hn, givesUp_eq_false hg.2.2]
    rfl
  exact (Settled.iff_of_reach (p := (s, n)) hset
    (hobs.mono fun _ _ hg => ⟨hg.1, hg.2.1⟩)).mpr hzero

/-- With every handle free and libuv done with every record, no write is on its way. -/
theorem Accounted.settled (hi : s.Accounted) (hb : s.body = none)
    (hm : s.threads.loop.mapAsync = ∅) (hw : ∀ r ∈ s.mapSend, s.writing r = none) :
    s.Settled := by
  rintro r ⟨o, ho, hne⟩
  cases o with
  | caller t => exact hne t rfl
  | handle h =>
    have hsig : s.threads.loop.signalled h = true := by
      by_contra hn
      simp [Holds, Uvloop.carries, hn] at ho
    have hmem := (hi.loop.threads.loop.inUse h).mpr (.inl hsig)
    simp [hm] at hmem
  | body => simp [Holds, hb] at ho
  | libuv =>
    have hnone := hw r (hi.pool.held .libuv r ho)
    simp [Holds, hnone] at ho

/-- `CloseConnection` and then `wirteData` are called, both with success, and the loop
executes the two requests in turn. -/
theorem not_completesEach : ¬ CompletesEach 64 fun _ _ => True := by
  intro hcomplete
  let ok : Answer := ⟨true, 1, fun _ => 0⟩
  obtain ⟨tr, s, hr, hp⟩ := System.exists_run_of_exec (M := connection 64)
    (G := fun s a => assumed 64 s a ∧ hasHandler s a)
    (s := create (fun _ => .loopStop) fun _ => ⟨⟨none, 0, 0, 0⟩, ⟨none, 0⟩⟩)
    [.registerloopAndStream, .setEventHandler true, .run 1, .setRunning 1,
      .request 1 .closeConnection, .addReq 1, .lock 1, .wirteData 1 [7], .takeSend 1 ok,
      .readmem 1 ok ok, .addReq 1, .lock 1, .turn (.fire 0), .perform 0, .turn .tcbReturn,
      .turn .recycle, .turn (.fire 1), .perform 0, .turn .tcbReturn, .turn .recycle, .closeCb 0]
    (p := fun s tr => decide (tr.countP Event.isAccepted = 1 ∧ tr.countP Event.isCompleted = 0 ∧
      s.body = none ∧ s.threads.loop.mapAsync = ∅ ∧ ∀ r ∈ s.mapSend, s.writing r = none))
    (by decide +kernel)
  obtain ⟨haccepted, hcompleted, hb, hm, hw⟩ := of_decide_eq_true hp
  have h : (connection 64).Reach (fun s a => dutiful s a ∧ hasHandler s a ∧ True) tr s :=
    ⟨_, ⟨_, _, rfl⟩, hr.mono fun _ _ hg => ⟨hg.1.dutiful, hg.2, trivial⟩⟩
  have hset := (accounted_of_reach (fun _ _ hg => hg.1) h).settled hb hm hw
  have heq := hcomplete tr s h hset
  rw [haccepted, hcompleted] at heq
  exact absurd heq one_ne_zero

end UvWrapper.Uvconnect
