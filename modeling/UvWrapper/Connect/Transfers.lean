import UvWrapper.Connect.Order

/-! # The whereabouts of send records

Each step of the connection leaves every send record where it is or reassigns one: to the
next of those who may hold it, or to nobody. A record that is written comes back with the
write callback; one whose request is refused or whose `tcpWrite` returns early does not.
-/

namespace UvWrapper.Uvconnect

open Function Memory Ownership Recycling

variable {w : ℕ} {s s' s₁ : Uvconnect} {a : Act} {es tr : List Event} {t r x : ℕ} {req : Req}
  {o : Holder}

/-- `uv_write` returns 0, and no other user of the loop adds an `E_LOOP_STOP`. -/
def dutiful (s : Uvconnect) (a : Act) : Prop := typed s a ∧ writesAccepted s a

theorem assumed.dutiful (h : assumed w s a) : dutiful s a := ⟨h.typed, h.writesAccepted⟩

/-- A thread that holds a record finds the loop running and a free handle, and `tcpWrite`
finds the connection established. -/
def keepsRecord (s : Uvconnect) : Act → Prop
  | .addReq t => ∀ r, s.Holds (.caller t) r → s.threads.loop.bRunning = true
  | .lock t => ∀ r, s.Holds (.caller t) r → s.threads.loop.dAsync ≠ []
  | .perform _ => ∀ r, s.Holds .body r → s.bConnectSuccess = true
  | _ => True

def Event.isTally : Event → Bool
  | .returned _ (.tcpWrite _) .noErr | .event .write _ => true
  | _ => false

/-- Records in the pool are the records created, those held are in `m_mapSend`, and each has
one holder. -/
structure PoolInv (s : Uvconnect) : Prop where
  pool : s.sendPool.WellFormed
  known : ∀ x, s.sendPool.Knows x ↔ x < s.created
  held : ∀ o x, s.Holds o x → x ∈ s.mapSend
  exclusive : Exclusive s.Holds

/-- What a step does with the holders of records, with `m_mapSend` and with the events that
are tallied. -/
inductive HolderMove (s : Uvconnect) (a : Act) (s' : Uvconnect) (es : List Event) : Prop
  | same : s.keepsRecord a → (∀ o x, s'.Holds o x ↔ s.Holds o x) → s'.mapSend = s.mapSend →
      es.filter Event.isTally = [] → HolderMove s a s' es
  | obtain (t r : ℕ) : s.keepsRecord a → (∀ o, ¬ s.Holds o r) →
      Reassigned s.Holds r (some (.caller t)) s'.Holds → s'.mapSend = insert r s.mapSend →
      es.filter Event.isTally = [] → HolderMove s a s' es
  | accept (t h r : ℕ) : s.keepsRecord a → s.Holds (.caller t) r →
      Reassigned s.Holds r (some (.handle h)) s'.Holds → s'.mapSend = s.mapSend →
      es.filter Event.isTally = [.returned t (.tcpWrite r) .noErr] → HolderMove s a s' es
  | pass (i j : Holder) (r : ℕ) : s.keepsRecord a → s.Holds i r → (∀ t, i ≠ .caller t) →
      (∀ t, j ≠ .caller t) → Reassigned s.Holds r (some j) s'.Holds →
      s'.mapSend = s.mapSend → es.filter Event.isTally = [] → HolderMove s a s' es
  | refuse (t r : ℕ) : (∀ err, a ≠ .perform err) → ¬ s.keepsRecord a →
      s.Holds (.caller t) r → Reassigned s.Holds r none s'.Holds → s'.mapSend = s.mapSend →
      es.filter Event.isTally = [] → HolderMove s a s' es
  | giveUp (r : ℕ) (err : ℤ) : a = .perform err → s.bConnectSuccess = false →
      s.Holds .body r → Reassigned s.Holds r none s'.Holds → s'.mapSend = s.mapSend →
      es.filter Event.isTally = [] → HolderMove s a s' es
  | complete (r : ℕ) (status : ℤ) : s.keepsRecord a → s.Holds .libuv r →
      Reassigned s.Holds r none s'.Holds → s'.mapSend = s.mapSend.erase r →
      es.filter Event.isTally = s.notify .write status → HolderMove s a s' es

/-! ## Events -/

theorem tally_loop (les : List (Uvloop.Event Req)) :
    (les.map Event.loop).filter Event.isTally = [] := by
  simp [List.filter_eq_nil_iff, Event.isTally]

theorem tally_loop_append (les : List (Uvloop.Event Req)) (fs : List Event) :
    (les.map Event.loop ++ fs).filter Event.isTally = fs.filter Event.isTally := by
  rw [List.filter_append, tally_loop, List.nil_append]

theorem tally_notify (s : Uvconnect) (ev : EvType) (arg : ℤ) (h : ev ≠ .write) :
    (s.notify ev arg).filter Event.isTally = [] := by
  unfold notify
  split
  · cases ev <;> first | rfl | exact (h rfl).elim
  · rfl

theorem PerformCases.tally {err : ℤ} (h : PerformCases s err req s' es) :
    es.filter Event.isTally = [] := by
  cases h <;> rfl

theorem ReadCases.tally {nread : ℤ} (h : ReadCases s nread s' es) :
    es.filter Event.isTally = [] := by
  cases h with
  | data => exact tally_notify s .read nread (by simp)
  | fault => rfl
  | lost => exact tally_notify s .close 0 (by simp)

theorem ClosedCases.tally (h : ClosedCases s x s' es) : es.filter Event.isTally = [] := by
  cases h with
  | submitted loop les => exact tally_loop les
  | _ => rfl

theorem ClosedCases.mapSend (h : ClosedCases s x s' es) : s'.mapSend = s.mapSend := by
  cases h <;> rfl

/-! ## Threads -/

theorem Apart.holderMove (hap : Apart s s') (hk : s.keepsRecord a)
    (he : es.filter Event.isTally = []) : HolderMove s a s' es :=
  .same hk (fun _ _ => hap.holds) hap.mapSend he

theorem LoopInv.holderMove_addReq (hl : s.LoopInv) (hp : s.PoolInv) {th : Uvloop.Threads Req}
    {les : List (Uvloop.Event Req)} (hc : s.call t = .requesting req)
    (ht : s.threads.step (.call t (.addReq req.eType (some req))) = some (th, les)) :
    HolderMove s (.addReq t) { s with threads := th, call := update s.call t .idle }
      (les.map .loop ++ if s.threads.loop.bRunning then [] else [.returned t req .stop]) := by
  have htally : (les.map Event.loop ++ if s.threads.loop.bRunning then []
      else [Event.returned t req .stop]).filter Event.isTally = [] := by
    rw [tally_loop_append]
    split
    · rfl
    · cases req <;> rfl
  rcases hl.holds_addReq hc ht with ⟨hrun, hsame⟩ | ⟨hrun, hgone⟩
  · exact .same (fun _ _ => hrun) hsame rfl htally
  · by_cases hw : ∃ r, s.Holds (.caller t) r
    · obtain ⟨r, hheld⟩ := hw
      refine .refuse t r (by simp) (fun hk => ?_) hheld
        (hgone.reassigned hp.exclusive hheld (fun x => hl.holds_unique (by simp) hheld) (by simp))
        rfl htally
      exact absurd (hrun.symm.trans (hk r hheld)) Bool.false_ne_true
    · have hno : ∀ x, ¬ s.Holds (.caller t) x := fun x hx => hw ⟨x, hx⟩
      exact .same (fun r hr => (hno r hr).elim) (hgone.unchanged hno (by simp)) rfl htally

theorem holds_locking {fill : Uvloop.Fill Req} (hc : s.call t = .idle)
    (ht : s.threads.call t = .locking fill) :
    s.Holds (.caller t) x ↔ ∃ e, fill = .addReq e (some (.tcpWrite x)) := by
  simp [Holds, hc, ht]

theorem LoopInv.holderMove_lock (hl : s.LoopInv) (hp : s.PoolInv) {th : Uvloop.Threads Req}
    {les : List (Uvloop.Event Req)} (ht : s.threads.step (.lock t) = some (th, les)) :
    HolderMove s (.lock t) { s with threads := th } (les.map .loop ++ s.lockResult t) := by
  rcases hl.holds_lock ht with ⟨hd, hgone⟩ | ⟨h, hd, hfree, hgiven⟩
  · have htally : (les.map Event.loop ++ s.lockResult t).filter Event.isTally = [] := by
      rw [tally_loop_append, lockResult]
      split
      · next req _ => rw [if_pos hd]; cases req <;> rfl
      · rfl
    by_cases hw : ∃ r, s.Holds (.caller t) r
    · obtain ⟨r, hheld⟩ := hw
      exact .refuse t r (by simp) (fun hk => hk r hheld hd) hheld
        (hgone.reassigned hp.exclusive hheld (fun x => hl.holds_unique (by simp) hheld) (by simp))
        rfl htally
    · have hno : ∀ x, ¬ s.Holds (.caller t) x := fun x hx => hw ⟨x, hx⟩
      exact .same (fun r hr => (hno r hr).elim) (hgone.unchanged hno (by simp)) rfl htally
  · obtain ⟨fill, hfill, -⟩ := Uvloop.Threads.lock_cases ht
    have hidle : s.call t = .idle := (hl.single t).resolve_right (by simp [hfill])
    have hfree' : ∀ o, some (Holder.handle h) = some o → ∀ x, ¬ s.Holds o x := by
      rintro _ ⟨⟩
      exact hfree
    by_cases hw : ∃ r, s.Holds (.caller t) r
    · obtain ⟨r, hheld⟩ := hw
      obtain ⟨e, he⟩ := (holds_locking hidle hfill).mp hheld
      refine .accept t h r (fun _ _ => hd) hheld
        (hgiven.reassigned hp.exclusive hheld (fun x => hl.holds_unique (by simp) hheld) hfree')
        rfl ?_
      rw [tally_loop_append, lockResult, hfill, he]
      simp only [if_neg hd]
      rfl
    · have hno : ∀ x, ¬ s.Holds (.caller t) x := fun x hx => hw ⟨x, hx⟩
      refine .same (fun r hr => (hno r hr).elim) (hgiven.unchanged hno hfree') rfl ?_
      rw [tally_loop_append, lockResult]
      split
      · next e req hreq =>
        cases req with
        | tcpWrite r => exact (hno r (.inr (.inr ⟨e, hreq⟩))).elim
        | _ => simp [Event.isTally]
      · rfl

theorem LoopInv.holderMove_turn (hl : s.LoopInv) (hseat : s.Seated) (hp : s.PoolInv)
    {b : Uvloop.Turn} {th : Uvloop.Threads Req} {les : List (Uvloop.Event Req)}
    (ht : s.threads.step (.turn b) = some (th, les)) :
    HolderMove s (.turn b) { s with threads := th, body := s.nextBody b th.loop.position }
      (les.map .loop) := by
  by_cases hb : ∃ h, b = .fire h
  · obtain ⟨h, rfl⟩ := hb
    have hpos := hl.threads.loop.polling_of_fire (Uvloop.Threads.turn_cases ht).2
    have hfree : ∀ o, some Holder.body = some o → ∀ x, ¬ s.Holds o x := by
      rintro _ ⟨⟩ x
      simp [Holds, hseat.running.body_eq_none (by simp [hpos])]
    have hentered := hl.holds_fire ht
    by_cases hw : ∃ r, s.Holds (.handle h) r
    · obtain ⟨r, hheld⟩ := hw
      exact .pass (.handle h) .body r trivial hheld (by simp) (by simp)
        (hentered.reassigned hp.exclusive hheld (fun x => hl.holds_unique (by simp) hheld) hfree)
        rfl (tally_loop les)
    · have hno : ∀ x, ¬ s.Holds (.handle h) x := fun x hx => hw ⟨x, hx⟩
      exact .same trivial (hentered.unchanged hno hfree) rfl (tally_loop les)
  · have hne : ∀ h, b ≠ .fire h := fun h he => hb ⟨h, he⟩
    exact .same trivial (hl.holds_turn ht hne) rfl (tally_loop les)

theorem PerformCases.holderMove {err : ℤ}
    (hcases : PerformCases { s with body := none } err req s' es) (hseat : s.Seated)
    (hp : s.PoolInv) (hb : s.body = some req) (hg : writesAccepted s (.perform err)) :
    HolderMove s (.perform err) s' es := by
  have hgone : Handover s.Holds .body none (Holds { s with body := none }) := by
    refine ⟨fun x => by simp [Holds], by simp, fun o ho _ x => ?_⟩
    cases o with
    | body => exact (ho rfl).elim
    | caller | handle | libuv => exact Iff.rfl
  cases hr : recordOf req with
  | none =>
    have hno : ∀ x, ¬ s.Holds .body x := by
      intro x hx
      obtain rfl := Option.some.inj (hb.symm.trans hx)
      simp [recordOf] at hr
    rcases hcases.apart with ⟨hap, -⟩ | ⟨r, h, rfl, -⟩
    · refine .same (fun r hr => (hno r hr).elim) (fun o x => ?_) hap.mapSend hcases.tally
      rw [hap.holds]
      exact hgone.unchanged hno (by simp) o x
    · cases hr
  | some r =>
    obtain rfl := recordOf_eq_some.mp hr
    have hheld : s.Holds .body r := hb
    obtain rfl := hg r hb
    cases hcases with
    | skipped _ hc =>
      refine .giveUp r 0 rfl hc hheld
        (hgone.reassigned hp.exclusive hheld (fun x hx => ?_) (by simp)) rfl rfl
      simpa using (hb.symm.trans hx).symm
    | fault _ hn => exact (hn r rfl).elim
    | writeFault _ hc hst => simpa [show s.stream = none from hst] using hseat.stream hc
    | write _ h hc hst =>
      refine .pass .body .libuv r (fun _ _ => hc) hheld (by simp) (by simp)
        (hp.exclusive.reassigned hheld fun o x => ?_) rfl rfl
      cases o with
      | caller u | handle h => simp [Holds]
      | body => simp [Holds, hb, eq_comm]
      | libuv =>
        rcases eq_or_ne x r with rfl | hxr
        · simp [Holds]
        · simp [Holds, hxr]
    | writeRefused _ _ _ _ hne => exact (hne rfl).elim

theorem holderMove_written (hp : s.PoolInv) {status : ℤ} (hw : (s.writing r).isSome) :
    HolderMove s (.writeCb r status) (s.written r status).1 (s.written r status).2 := by
  have hheld : s.Holds .libuv r := hw
  have hm : r ∈ s.mapSend := hp.held .libuv r hheld
  rw [written, if_pos hm]
  refine .complete r status trivial hheld (hp.exclusive.reassigned hheld fun o x => ?_) rfl ?_
  · cases o with
    | caller | handle | body => simp [Holds]
    | libuv =>
      rcases eq_or_ne x r with rfl | hxr
      · simp [Holds]
      · simp [Holds, hxr]
  · unfold notify
    split <;> rfl

theorem PoolInv.unused (hp : s.PoolInv) {ma : Answer} (ht : s.takeSend ma = some (r, s₁)) :
    r ∉ s.mapSend ∧ s₁.mapSend = insert r s.mapSend := by
  rcases takeSend_cases ht with ⟨b, hd, -, rfl, rfl⟩ | ⟨rest, hd, rfl⟩
  · exact ⟨fun hm => absurd ((hp.known _).mp (.inr hm)) (Nat.lt_irrefl _), rfl⟩
  · exact ⟨hp.pool.disjoint r (by simp [sendPool, hd]), rfl⟩

theorem LoopInv.holderMove_obtained (hl : s.LoopInv) (hp : s.PoolInv) {ma : Answer}
    {buf : List UInt8} (hc : s.call t = .checked buf) (ht : s.takeSend ma = some (r, s₁)) :
    HolderMove s (.takeSend t ma) { s₁ with call := update s.call t (.obtained r buf) }
      [.obtained t r buf] := by
  obtain ⟨hth, -, hbody, hwriting⟩ := takeSend_threads ht
  have hidle : s.threads.call t = .idle := hl.idle_of_call (by simp [hc])
  obtain ⟨hunused, hmap⟩ := hp.unused ht
  have hno : ∀ o, ¬ s.Holds o r := fun o ho => hunused (hp.held o r ho)
  refine .obtain t r trivial hno (.of_unowned hno fun o x => ?_) hmap rfl
  cases o with
  | caller u =>
    rcases eq_or_ne u t with rfl | hut
    · simp [Holds, hth, hc, hidle, eq_comm]
    · have hsame : Holds { s₁ with call := update s.call t (.obtained r buf) } (.caller u) x ↔
          s.Holds (.caller u) x := holds_caller_congr (update_of_ne hut ..) (by rw [hth])
      simp [hsame, hut.symm]
  | handle h => simp [Holds, hth]
  | body => simp [Holds, hbody]
  | libuv => simp [Holds, hwriting]

/-- Nobody has passed the tests of `wirteData`, and there are no writes. -/
def NoWriter (s : Uvconnect) : Prop :=
  (∀ t buf, s.call t ≠ .checked buf) ∧ ∀ o r, ¬ s.Holds o r

/-- The first to hold a record passes the tests of `wirteData` first. -/
theorem NoWriter.step (h : s.NoWriter) (hl : s.LoopInv) (hg : writesAccepted s a)
    (hs : s.step w a = some (s', es)) :
    s'.NoWriter ∨ ∃ t buf, a = .wirteData t buf ∧ s'.call t = .checked buf := by
  cases hl.move hg hs with
  | keep _ _ _ _ hk hsub =>
    by_cases hc : ∃ t buf, s'.call t = .checked buf
    · obtain ⟨t, buf, hc⟩ := hc
      rcases hk.checked t buf hc with hc' | rfl
      · exact (h.1 t buf hc').elim
      · exact .inr ⟨t, buf, rfl, hc⟩
    · exact .inl ⟨fun t buf hb => hc ⟨t, buf, hb⟩, fun o r hr => h.2 o r (hsub o r hr)⟩
  | give _ _ _ i j r _ _ hh => exact (h.2 i r hh).elim
  | obtain t ma buf r s₁ hc => exact (h.1 t buf hc).elim
  | fill t ma re r buf b ok hc => exact (h.2 (.caller t) r (.inl ⟨buf, hc⟩)).elim
  | write r h' hb => exact (h.2 .body r hb).elim
  | complete r status hw => exact (h.2 .libuv r hw).elim

def Registered (s : Uvconnect) : Prop := s.ploop = true ∨ s.NoWriter

theorem PerformCases.config {err : ℤ} (h : PerformCases s err req s' es) :
    s'.ploop = s.ploop ∧ s'.handler = s.handler := by
  cases h <;> exact ⟨rfl, rfl⟩

theorem ReadCases.config {nread : ℤ} (h : ReadCases s nread s' es) :
    s'.ploop = s.ploop ∧ s'.handler = s.handler := by
  cases h <;> exact ⟨rfl, rfl⟩

theorem ClosedCases.config (h : ClosedCases s x s' es) :
    s'.ploop = s.ploop ∧ s'.handler = s.handler := by
  cases h <;> exact ⟨rfl, rfl⟩

theorem config_kept (hs : s.step w a = some (s', es)) :
    (s.ploop = true → s'.ploop = true) ∧
      (s'.handler = s.handler ∨ a = .setEventHandler s'.handler) := by
  cases step_cases hs with
  | registerConnect | registerloopAndStream => exact ⟨fun _ => rfl, .inl rfl⟩
  | setEventHandler b => exact ⟨id, .inr rfl⟩
  | obtained t ma buf r s₁ _ ht =>
    obtain ⟨b, -, -, -, rfl⟩ | ⟨rest, -, rfl⟩ := takeSend_cases ht <;> exact ⟨id, .inl rfl⟩
  | requesting t f s₁ req _ hb =>
    cases f <;> obtain ⟨rfl, -⟩ := Prod.mk.inj hb <;> exact ⟨id, .inl rfl⟩
  | perform req err =>
    obtain ⟨hp, hh⟩ := (perform_cases { s with body := none } req err).config
    exact ⟨fun h => hp.trans h, .inl hh⟩
  | readCb x nread =>
    obtain ⟨hp, hh⟩ := (readDone_cases s nread).config
    exact ⟨fun h => hp.trans h, .inl hh⟩
  | writeCb r status =>
    unfold written
    split <;> exact ⟨id, .inl rfl⟩
  | closeCb x =>
    obtain ⟨hp, hh⟩ := (closed_cases s x).config
    exact ⟨fun h => hp.trans h, .inl hh⟩
  | _ => exact ⟨id, .inl rfl⟩

theorem ploop_of_checked {buf : List UInt8} (hs : s.step w (.wirteData t buf) = some (s', es))
    (hc : s'.call t = .checked buf) : s'.ploop = true := by
  cases step_cases hs with
  | loop _ _ _ _ hl => cases hl
  | rejected _ _ hidle => cases hidle.1.symm.trans hc
  | checked _ _ _ _ hp => exact hp

theorem Registered.step (hr : s.Registered) (hl : s.LoopInv) (hg : writesAccepted s a)
    (hs : s.step w a = some (s', es)) : s'.Registered := by
  rcases hr with hp | hr
  · exact .inl ((config_kept hs).1 hp)
  · rcases hr.step hl hg hs with h | ⟨t, buf, rfl, hc⟩
    · exact .inr h
    · exact .inl (ploop_of_checked hs hc)

theorem ploop_of_fault (hs : s.step w (.addReq t) = some ({ s with crashed := true }, [.fault])) :
    s.ploop = false := by
  unfold step at hs
  split at hs
  · contradiction
  · next hn =>
    dsimp only at hs
    split at hs
    · next req _ =>
      split at hs
      · next hp => simpa using (Bool.and_eq_true_iff.mp hp).2
      · obtain ⟨⟨s₁, es₁⟩, hp, he⟩ := Option.map_eq_some_iff.mp hs
        obtain ⟨th, les, -, rfl, -⟩ := loopStep_cases hp
        exact (hn (congrArg (fun q => q.1.crashed) he)).elim
    · contradiction

/-- Every step of the connection is one of these moves. -/
theorem holderMove (hl : s.LoopInv) (hseat : s.Seated) (hp : s.PoolInv) (hr : s.Registered)
    (hg : writesAccepted s a) (hs : s.step w a = some (s', es)) : HolderMove s a s' es := by
  have hkept : ∀ {s' : Uvconnect} {a : Act} {es : List Event}, s'.call = s.call →
      s'.threads = s.threads → s'.body = s.body → s'.writing = s.writing →
      s'.mapSend = s.mapSend → s.keepsRecord a → es.filter Event.isTally = [] →
      HolderMove s a s' es := by
    intro s' a es hc ht hb hw hm hk he
    refine .same hk (fun o x => ?_) hm he
    cases o <;> simp only [Holds, hc, ht, hb, hw]
  cases step_cases hs with
  | registerConnect | registerloopAndStream | setEventHandler | setIPAndAddr | rejected
  | requestRejected | obtainFault | fillFault => exact hkept rfl rfl rfl rfl rfl trivial rfl
  | addReqFault t =>
    refine hkept rfl rfl rfl rfl rfl (fun r hh => ?_) rfl
    rcases hr with hr | hr
    · exact absurd ((ploop_of_fault hs).symm.trans hr) Bool.false_ne_true
    · exact (hr.2 _ r hh).elim
  | loop a b th les hb ht =>
    exact .same (by cases hb <;> trivial) (hl.holds_loop hb ht) rfl (tally_loop les)
  | checked t buf hidle =>
    refine .same trivial (fun o x => holds_congr (t := t) ?_ ?_ rfl rfl rfl) rfl rfl
    · simp [Holds, hidle.1, hidle.2]
    · exact fun u hut => ⟨update_of_ne hut .., rfl⟩
  | obtained t ma buf r s₁ hc ht => exact hl.holderMove_obtained hp hc ht
  | filled t ma re r buf b ok hc hr =>
    have hidle : s.threads.call t = .idle := hl.idle_of_call (by simp [hc])
    refine .same trivial (fun o x => holds_congr (t := t) ?_ ?_ rfl rfl rfl) rfl rfl
    · simp [Holds, hc, hidle]
    · exact fun u hut => ⟨update_of_ne hut .., rfl⟩
  | requesting t f s₁ req hidle hb =>
    obtain ⟨hap, hreq, -⟩ := begin_cases hb
    refine .same trivial (fun o x => ?_) hap.mapSend rfl
    rw [← hap.holds]
    refine holds_congr (t := t) ?_ (fun u hut => ⟨?_, rfl⟩) rfl rfl rfl
    · simp [Holds, hap.call, hap.threads, hidle.1, hidle.2, hreq]
    · rw [hap.call]
      exact update_of_ne hut ..
  | addReq t req th les hc ht => exact hl.holderMove_addReq hp hc ht
  | lock t th les ht => exact hl.holderMove_lock hp ht
  | turn b th les ht _ => exact hl.holderMove_turn hseat hp ht
  | perform req err hb =>
    exact (perform_cases { s with body := none } req err).holderMove hseat hp hb hg
  | connectCb h status =>
    exact (apart_connected s h status).1.holderMove trivial
      (tally_notify s .connect status (by simp))
  | readCb h nread =>
    exact (readDone_cases s nread).apart.1.holderMove trivial (readDone_cases s nread).tally
  | writeCb r status _ hw => exact holderMove_written hp hw
  | closeCb h =>
    have hc := closed_cases s h
    exact .same trivial (hc.holds hl) hc.mapSend hc.tally

/-! ## Whole runs -/

theorem PoolInv.sendPool (hp : s.PoolInv) (hl : s.LoopInv) (hg : writesAccepted s a)
    (hs : s.step w a = some (s', es)) :
    s'.sendPool.WellFormed ∧ ∀ x, s'.sendPool.Knows x ↔ x < s'.created := by
  have hkept : Kept s s' →
      s'.sendPool.WellFormed ∧ ∀ x, s'.sendPool.Knows x ↔ x < s'.created := by
    intro hk
    have hpool : s'.sendPool = s.sendPool := by
      simp only [Uvconnect.sendPool, hk.dSend, hk.mapSend]
    rw [hpool, hk.created]
    exact ⟨hp.pool, hp.known⟩
  cases hl.move hg hs with
  | keep _ _ _ hk | give _ _ _ _ _ _ hk => exact hkept hk
  | obtain t ma buf r s₁ hc ht =>
    rcases takeSend_cases ht with ⟨b, hd, -, rfl, rfl⟩ | ⟨rest, hd, rfl⟩
    · have hfree : s.created ∉ s.sendPool.free := by simp [Uvconnect.sendPool, hd]
      refine ⟨hp.pool.create hfree, fun x => ?_⟩
      rw [Nat.lt_succ_iff_lt_or_eq, ← hp.known x]
      exact (Pool.knows_create (p := s.sendPool)).trans or_comm
    · have htake : s.sendPool.take = some (r, ⟨rest, insert r s.mapSend⟩) := by
        simp [Pool.take, Uvconnect.sendPool, hd]
      exact ⟨hp.pool.take htake, fun x => (Pool.knows_take htake).trans (hp.known x)⟩
  | fill | write => exact ⟨hp.pool, hp.known⟩
  | complete r status hw =>
    have hrec := Pool.recycle_of_mem (p := s.sendPool) (hp.held .libuv r hw)
    rw [written, if_pos (hp.held .libuv r hw)]
    exact ⟨hp.pool.recycle hrec, fun x => (Pool.knows_recycle hrec).trans (hp.known x)⟩

theorem HolderMove.exclusive (hm : HolderMove s a s' es) (he : Exclusive s.Holds) :
    Exclusive s'.Holds := by
  cases hm with
  | same _ hiff => exact he.drop fun o x => (hiff o x).mp
  | obtain _ _ _ _ hr | accept _ _ _ _ _ hr | pass _ _ _ _ _ _ _ hr | refuse _ _ _ _ _ hr
  | giveUp _ _ _ _ _ hr | complete _ _ _ _ hr => exact hr.exclusive he

theorem HolderMove.held (hm : HolderMove s a s' es) (hp : s.PoolInv) (h : s'.Holds o x) :
    x ∈ s'.mapSend := by
  have hmoved : ∀ {k r}, Reassigned s.Holds r k s'.Holds → r ∈ s.mapSend → x ∈ s.mapSend := by
    intro k r hr hmem
    rcases eq_or_ne x r with rfl | hxr
    · exact hmem
    · exact hp.held o x ((hr.others o x hxr).mp h)
  cases hm with
  | same _ hiff hmap => exact hmap ▸ hp.held o x ((hiff o x).mp h)
  | obtain t r _ _ hr hmap =>
    rw [hmap, Finset.mem_insert]
    refine or_iff_not_imp_left.mpr fun hxr => hp.held o x ((hr.others o x hxr).mp h)
  | accept _ _ r _ hh hr hmap | pass _ _ r _ hh _ _ hr hmap | refuse _ r _ _ hh hr hmap
  | giveUp r _ _ _ hh hr hmap => exact hmap ▸ hmoved hr (hp.held _ r hh)
  | complete r status _ hh hr hmap =>
    rw [hmap, Finset.mem_erase]
    refine ⟨?_, hmoved hr (hp.held _ r hh)⟩
    rintro rfl
    cases (hr.owner o).mp h

/-- What the moves of records rest on. -/
structure Accounted (s : Uvconnect) : Prop where
  loop : s.LoopInv
  seated : s.Seated
  pool : s.PoolInv
  registered : s.Registered

theorem Accounted.move (hi : s.Accounted) (hg : dutiful s a) (hs : s.step w a = some (s', es)) :
    HolderMove s a s' es :=
  holderMove hi.loop hi.seated hi.pool hi.registered hg.2 hs

theorem Accounted.step (hi : s.Accounted) (hg : dutiful s a) (hs : s.step w a = some (s', es)) :
    s'.Accounted := by
  have hm := hi.move hg hs
  obtain ⟨hpool, hknown⟩ := hi.pool.sendPool hi.loop hg.2 hs
  exact ⟨hi.loop.step hg.1 hs, hi.seated.step hs,
    ⟨hpool, hknown, fun o x => hm.held hi.pool, hm.exclusive hi.pool.exclusive⟩,
    hi.registered.step hi.loop hg.2 hs⟩

theorem accounted_create (garbage : ℕ → EType) (send : ℕ → StSend) :
    (create garbage send).Accounted := by
  have hrec := create_recordInv (w := 0) garbage send
  refine ⟨create_loopInv garbage send, ⟨by simp [create], .of_body rfl⟩,
    ⟨hrec.pool, fun x => by simp [Pool.Knows, sendPool, create], hrec.held, hrec.exclusive⟩,
    .inr ⟨by simp [create], create_holds garbage send⟩⟩

theorem accounted_of_reach {G : Uvconnect → Act → Prop} (hG : ∀ s a, G s a → dutiful s a)
    (h : (connection w).Reach G tr s) : s.Accounted := by
  refine h.stateInvariant ?_ fun _ s a s' es _ hi hg hs => hi.step (hG s a hg) hs
  rintro s ⟨garbage, send, rfl⟩
  exact accounted_create garbage send

end UvWrapper.Uvconnect
