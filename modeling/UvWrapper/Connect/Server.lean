import UvWrapper.Connect.Streams
import UvWrapper.Connect.Reconnect
import UvWrapper.Connect.Route

/-! # Connections that were accepted

A connection that `uvaccept` has made and on which nobody calls `ConnectToServer` or
`Reconnnect` has one stream in its life. Once a read has failed or `CloseConnect` has been
executed, the flag is never set again and nothing is read any more, whatever requests are
still on their way.
-/

namespace UvWrapper.Uvconnect

open Function Transition

variable {w : ℕ} {s s' : Uvconnect} {a : Act} {es tr : List Event} {h t : ℕ} {req : Req}

/-! ## Requests on their way -/

/-- A request that a thread is about to submit, that is on a handle, or whose callback the
loop thread has entered. -/
def OnItsWay (s : Uvconnect) (req : Req) : Prop :=
  (∃ t, s.call t = .requesting req) ∨
    (∃ t e, s.threads.call t = .locking (.addReq e (some req))) ∨
    (∃ h, (s.threads.loop.async h).tcb = some req) ∨ s.body = some req

theorem onItsWay_iff : s.OnItsWay req ↔ ∃ p, s.At req p := by
  constructor
  · rintro (⟨t, hc⟩ | ⟨t, e, hc⟩ | ⟨x, hx⟩ | hb)
    · exact ⟨.caller t, hc⟩
    · exact ⟨.locking t, e, hc⟩
    · exact ⟨.handle x, hx⟩
    · exact ⟨.body, hb⟩
  · rintro ⟨t | t | x | -, h⟩
    · exact .inl ⟨t, h⟩
    · exact .inr (.inl ⟨t, h⟩)
    · exact .inr (.inr (.inl ⟨x, h⟩))
    · exact .inr (.inr (.inr h))

theorem OnItsWay.step (h : s'.OnItsWay req) (hs : s.step w a = some (s', es))
    (hr : s.bReconect = false) (hw : ∀ r, req ≠ .tcpWrite r) :
    s.OnItsWay req ∨ ∃ t f, a = .request t f ∧ (s.begin f).2 = some req := by
  obtain ⟨p, hp⟩ := onItsWay_iff.mp h
  cases hp.step hs hr hw with
  | stays _ _ h => exact .inl (onItsWay_iff.mpr ⟨_, h⟩)
  | made t f hb => exact .inr ⟨t, f, rfl, hb⟩
  | submitted _ h | accepted _ _ h | entered _ h => exact .inl (onItsWay_iff.mpr ⟨_, h⟩)

/-! ## The end of a connection -/

/-- `uvaccept` gives the connection its stream, and neither `ConnectToServer` nor
`Reconnnect` is called. -/
def serverSide (s : Uvconnect) : Act → Prop
  | .registerloopAndStream => s.tcps = 0
  | .request _ .connectToServer | .request _ .reconnnect => False
  | _ => True

instance (s : Uvconnect) : DecidablePred (serverSide s) := fun a =>
  match a with
  | .registerloopAndStream => inferInstanceAs (Decidable (s.tcps = 0))
  | .request _ .connectToServer | .request _ .reconnnect => .isFalse id
  | .request _ .closeConnection | .request _ .startReadData | .request _ .stopReadData
  | .request _ (.other _ _) | .registerConnect | .setEventHandler _ | .setIPAndAddr _ | .run _
  | .setRunning _ | .stop _ | .wirteData _ _ | .takeSend _ _ | .readmem _ _ _ | .addReq _
  | .lock _ | .turn _ | .perform _ | .connectCb _ _ | .readCb _ _ | .writeCb _ _ | .closeCb _ =>
    .isTrue trivial

def Event.isClose : Event → Bool
  | .event .close _ => true
  | _ => false

def Event.isRead : Event → Bool
  | .event .read _ => true
  | _ => false

def Event.entered : Event → Option Req
  | .loop (.ran _ st) => if st.eEvent = .loopStop then none else st.tcb
  | _ => none

/-- `EV_CLOSE` is delivered, or the loop thread enters `CloseConnect`. -/
def Event.isEnd (e : Event) : Bool := e.isClose || decide (e.entered = some .closeConnect)

/-- There is at most one handle, it does not wait for a connect callback, and it is the
stream. -/
structure Single (l : Link) : Prop where
  stream : ∀ h, l.tcp h ≠ .raw → l.stream = some h
  settled : ∀ h, l.tcp h ≠ .connecting
  seat : ∀ h, l.stream = some h → h < l.tcps
  fresh : ∀ h, l.tcps ≤ h → l.tcp h = .raw

theorem Single.accept {l : Link} (hi : Single l) (h₀ : l.tcps = 0) : Single { l with
    bConnectSuccess := true
    stream := some l.tcps
    tcps := l.tcps + 1
    tcp := update l.tcp l.tcps .connected } := by
  have hraw : ∀ x, x ≠ l.tcps → update l.tcp l.tcps .connected x = .raw := by
    intro x hx
    rw [update_of_ne hx]
    exact hi.fresh x (by omega)
  constructor
  case stream =>
    intro x hx
    by_contra hne
    exact hx (hraw x fun he => hne (congrArg some he.symm))
  case settled =>
    intro x
    rcases eq_or_ne x l.tcps with rfl | hx
    · simp
    · simp [hraw x hx]
  case seat =>
    rintro x ⟨⟩
    exact Nat.lt_succ_self _
  case fresh =>
    intro x hx
    exact hraw x (Nat.lt_of_succ_le hx).ne'

theorem Single.setTcp {l : Link} (hi : Single l) (b : Bool) (st : TcpState)
    (hne : st ≠ .connecting) (hst : l.stream = some h) :
    Single { l with bConnectSuccess := b, tcp := update l.tcp h st } := by
  constructor
  case stream =>
    intro x hx
    rcases eq_or_ne x h with rfl | hxh
    · exact hst
    · exact hi.stream x (by simpa [hxh] using hx)
  case settled =>
    intro x
    rcases eq_or_ne x h with rfl | hxh
    · simpa using hne
    · simpa [hxh] using hi.settled x
  case seat => exact hi.seat
  case fresh =>
    intro x hx
    have hxh : x ≠ h := fun he => absurd (hi.seat h hst) (not_lt.mpr (he ▸ hx))
    exact (update_of_ne hxh ..).trans (hi.fresh x hx)

theorem Single.move {l : Link} (hi : Single s.link) (hg : serverSide s a)
    (hbody : s.body ≠ some .connect) (hm : StreamMove s a l es) : Single l := by
  have hreading : ∀ b f, Single { s.link with bConnectSuccess := b, reading := f } :=
    fun _ _ => ⟨hi.stream, hi.settled, hi.seat, hi.fresh⟩
  cases hm with
  | stay | write | data | orphan => exact hi
  | readStart | readStop | lost => exact hreading _ _
  | accept => exact hi.accept hg
  | dial err hb => exact (hbody hb).elim
  | connected x status ht => exact (hi.settled x ht).elim
  | close x err _ hst => exact hi.setTcp false .closing (by simp) hst
  | closed x es ht =>
    have hst : s.stream = some x := hi.stream x (by simp [link, ht])
    exact hi.setTcp s.bConnectSuccess .closed (by simp) hst

structure ServerInv (s : Uvconnect) : Prop where
  connect : ¬ s.OnItsWay .connect
  bReconect : s.bReconect = false
  single : Single s.link
  entered : s.Entered

theorem begin_connect {f : Api} (h : (s.begin f).2 = some .connect) : f = .connectToServer := by
  cases f with
  | connectToServer => rfl
  | startReadData =>
    simp only [begin] at h
    split at h <;> cases h
  | closeConnection | reconnnect | stopReadData | other => cases h

theorem ServerInv.body (hi : s.ServerInv) : s.body ≠ some .connect :=
  fun hb => hi.connect (.inr (.inr (.inr hb)))

theorem ServerInv.step (hi : s.ServerInv) (hg : serverSide s a)
    (hs : s.step w a = some (s', es)) : s'.ServerInv := by
  refine ⟨fun h => ?_, ?_, hi.single.move hg hi.body (streamMove hs), hi.entered.step hs⟩
  · rcases h.step hs hi.bReconect nofun with h | ⟨t, f, rfl, hb⟩
    · exact hi.connect h
    · obtain rfl := begin_connect hb
      exact hg
  · rw [bReconect_step hs]
    cases a with
    | request t f =>
      cases f with
      | reconnnect => exact hg.elim
      | _ => exact hi.bReconect
    | closeCb => rfl
    | _ => exact hi.bReconect

theorem serverInv_of_reach (h : (connection w).Reach serverSide tr s) : s.ServerInv := by
  refine h.stateInvariant ?_ fun _ s a s' es _ hi hg hs => hi.step hg hs
  rintro s ⟨garbage, send, rfl⟩
  refine ⟨?_, rfl, ⟨by simp [link, create], nofun, nofun, fun _ _ => rfl⟩, .of_body rfl⟩
  rintro (⟨t, h⟩ | ⟨t, e, h⟩ | ⟨x, h⟩ | h) <;> cases h

/-- The one stream was there, the flag is not set, and nothing can be read. -/
structure Over (l : Link) : Prop where
  opened : l.tcps ≠ 0
  flag : l.bConnectSuccess = false
  silent : ∀ h, l.tcp h = .connected → l.reading h = false

theorem delivers_of_quiet (he : ∀ e ∈ es, e.isStream = false) :
    ∀ e ∈ es, e.isClose = false ∧ e.isRead = false := by
  intro e hm
  have hq := he e hm
  cases e with
  | event ev arg => cases ev <;> first | exact ⟨rfl, rfl⟩ | cases hq
  | _ => exact ⟨rfl, rfl⟩

/-- Nothing is delivered any more, and nothing changes that. -/
theorem Over.move {l : Link} (ho : Over s.link) (hi : s.ServerInv) (hg : serverSide s a)
    (hm : StreamMove s a l es) : Over l ∧ ∀ e ∈ es, e.isClose = false ∧ e.isRead = false := by
  have hread : ∀ {x}, s.tcp x = .connected → s.reading x = true → False :=
    fun ht hr => absurd ((ho.silent _ ht).symm.trans hr) Bool.false_ne_true
  have hflag : s.bConnectSuccess ≠ true :=
    fun hc => absurd (ho.flag.symm.trans hc) Bool.false_ne_true
  have hclosing : ∀ {x st}, st ≠ .connected → ∀ y, update s.tcp x st y = .connected →
      s.reading y = false :=
    fun hst y hy => ho.silent y (Update.of_update hst hy).2
  cases hm with
  | stay _ _ _ he => exact ⟨ho, delivers_of_quiet he⟩
  | accept => exact (ho.opened hg).elim
  | dial err hb => exact (hi.body hb).elim
  | connected x status ht => exact (hi.single.settled x ht).elim
  | close x err _ hst =>
    exact ⟨⟨ho.opened, rfl, hclosing (by simp)⟩, by simp [Event.isClose, Event.isRead]⟩
  | readStart x err hc | write r x err bytes es hc => exact (hflag hc).elim
  | readStop x err hst =>
    refine ⟨⟨ho.opened, ho.flag, fun y hy => ?_⟩, by simp [Event.isClose, Event.isRead]⟩
    rcases eq_or_ne y x with rfl | hyx
    · exact update_self ..
    · exact (update_of_ne hyx ..).trans (ho.silent y hy)
  | data x nread _ ht hr => exact (hread ht hr).elim
  | lost x x' nread _ ht hr => exact (hread ht hr).elim
  | orphan x nread _ ht hst =>
    have hseat := hi.single.stream x (by simp [link, ht])
    cases hst.symm.trans hseat
  | closed x es ht he =>
    exact ⟨⟨ho.opened, ho.flag, hclosing (by simp)⟩, delivers_of_quiet he⟩

def Event.Precedes (e e' : Event) : Prop :=
  e.isEnd = true → e'.isClose = false ∧ e'.isRead = false

theorem ServerInv.over_of_stream (hi : s.ServerInv) {l : Link} {x : ℕ} (hst : s.stream = some x)
    (ht : l.tcps = s.tcps) (hc : l.bConnectSuccess = false)
    (hl : ∀ y, l.tcp y = .connected → s.tcp y = .connected ∧ (y = x → l.reading y = false)) :
    Over l := by
  have hlt : x < s.tcps := hi.single.seat x hst
  refine ⟨by omega, hc, fun y hy => ?_⟩
  obtain ⟨hconn, hsilent⟩ := hl y hy
  have hyx := hi.single.stream y (by simp [link, hconn])
  exact hsilent (Option.some.inj (hyx.symm.trans hst))

theorem ServerInv.lost {l : Link} (hi : s.ServerInv) (hm : StreamMove s a l es) :
    es.Pairwise (fun e e' => e.isClose = true → e'.isClose = false ∧ e'.isRead = false) ∧
      ((∃ e ∈ es, e.isClose = true) → Over l) := by
  have hnone : (∀ e ∈ es, e.isClose = false) →
      es.Pairwise (fun e e' => e.isClose = true → e'.isClose = false ∧ e'.isRead = false) ∧
        ((∃ e ∈ es, e.isClose = true) → Over l) := by
    intro hn
    constructor
    · apply List.pairwise_of_forall_mem_list
      intro e he e' _ hc
      exact absurd ((hn e he).symm.trans hc) Bool.false_ne_true
    · rintro ⟨e, he, hc⟩
      exact absurd ((hn e he).symm.trans hc) Bool.false_ne_true
  have hquiet : ∀ {fs : List Event}, (∀ e ∈ fs, e.isStream = false) →
      ∀ e ∈ fs, e.isClose = false := fun hf e he => (delivers_of_quiet hf e he).1
  have hnotify : ∀ {ev : EvType} {arg : ℤ}, ev ≠ .close →
      ∀ e ∈ s.notify ev arg, e.isClose = false := by
    intro ev arg hev e he
    unfold notify at he
    split at he
    · obtain rfl := List.mem_singleton.mp he
      cases ev <;> first | rfl | exact (hev rfl).elim
    · cases he
  cases hm with
  | stay _ _ _ he | closed x _ _ he => exact hnone (hquiet he)
  | accept | dial | orphan | readStart | readStop | close => exact hnone (by simp [Event.isClose])
  | connected x status => exact hnone (List.forall_mem_cons.mpr ⟨rfl, hnotify nofun⟩)
  | data x nread => exact hnone (hnotify nofun)
  | write r x err bytes fs _ _ he => exact hnone (List.forall_mem_cons.mpr ⟨rfl, hquiet he⟩)
  | lost x x' nread _ ht _ hst =>
    constructor
    · refine List.pairwise_cons.mpr ⟨fun _ _ => nofun, ?_⟩
      unfold notify
      split
      · exact List.pairwise_singleton ..
      · exact .nil
    · refine fun _ => hi.over_of_stream hst rfl rfl fun y hy => ⟨hy, ?_⟩
      rintro rfl
      exact update_self ..

theorem ServerInv.closed (hi : s.ServerInv) {err : ℤ} (hb : s.body = some .closeConnect)
    (hs : s.step w (.perform err) = some (s', es)) :
    (Over s'.link ∨ s'.crashed = true) ∧ ∀ e ∈ es, e.isClose = false ∧ e.isRead = false := by
  rcases closeConnect_cases hb hs with ⟨-, -, hc, rfl⟩ | ⟨x, hst, hl, rfl⟩
  · exact ⟨.inr hc, by simp [Event.isClose, Event.isRead]⟩
  · refine ⟨.inl ?_, by simp [Event.isClose, Event.isRead]⟩
    rw [hl]
    refine hi.over_of_stream hst rfl rfl fun y hy => ?_
    have hy' : update s.tcp x .closing y = .connected := hy
    obtain ⟨hyx, hconn⟩ := Update.of_update (by decide) hy'
    exact ⟨hconn, fun he => (hyx he).elim⟩

/-! ## Entering a callback -/

theorem entered_loop {les : List (Uvloop.Event Req)} {e : Event} (he : e ∈ les.map .loop)
    (h : e.entered = some req) :
    ∃ x st, .ran x st ∈ les ∧ st.eEvent ≠ .loopStop ∧ st.tcb = some req := by
  obtain ⟨le, hle, rfl⟩ := List.mem_map.mp he
  cases le with
  | ran x st =>
    obtain ⟨hne, htcb⟩ := Option.ite_none_left_eq_some.mp h
    exact ⟨x, st, hle, hne, htcb⟩
  | _ => cases h

theorem entered_notify (s : Uvconnect) (ev : EvType) (arg : ℤ) :
    ∀ e ∈ s.notify ev arg, e.entered = none := by
  unfold notify
  split <;> simp [Event.entered]

theorem entered_threads {b : Uvloop.Act Req} {th : Uvloop.Threads Req}
    {les : List (Uvloop.Event Req)} (ht : s.threads.step b = some (th, les))
    (hb : ∀ c, b ≠ .turn c) : ∀ e ∈ les.map Event.loop, e.entered = none := by
  intro e he
  by_contra hne
  obtain ⟨req, hreq⟩ := Option.ne_none_iff_exists'.mp hne
  obtain ⟨x, st, hm, hst, -⟩ := entered_loop he hreq
  exact hb _ (Uvloop.Threads.ran_of_step ht hm hst).1

theorem entered_lockResult (s : Uvconnect) (t : ℕ) : ∀ e ∈ s.lockResult t, e.entered = none := by
  intro e he
  unfold lockResult at he
  split at he <;> simp at he
  rw [he]
  rfl

theorem PerformCases.entered {err : ℤ} (h : PerformCases s err req s' es) :
    ∀ e ∈ es, e.entered = none := by
  cases h <;> simp [Uvconnect.connect, Event.entered]

theorem ReadCases.entered {nread : ℤ} (h : ReadCases s nread s' es) :
    ∀ e ∈ es, e.entered = none := by
  cases h with
  | data => exact entered_notify s _ _
  | fault => simp [Event.entered]
  | lost => exact List.forall_mem_cons.mpr ⟨rfl, entered_notify s _ _⟩

theorem ClosedCases.entered {x : ℕ} (hc : ClosedCases s x s' es) :
    ∀ e ∈ es, e.entered = none := by
  cases hc with
  | submitted loop les _ _ _ hsub =>
    rcases Uvloop.submit_cases s.threads.loop (.addReq .tcpConnect (some .connect)) with
      ⟨-, hl⟩ | ⟨y, l, -, hl⟩ <;>
      obtain ⟨-, rfl⟩ := Prod.mk.inj (hsub.symm.trans hl) <;> simp [Event.entered]
  | _ => simp [Event.entered]

/-- The loop thread announces what it enters, and then has it to execute. -/
theorem body_of_entered (hs : s.step w a = some (s', es)) {e : Event} (he : e ∈ es)
    (h : e.entered = some req) :
    s'.body = some req ∧ ∀ e ∈ es, e.isClose = false ∧ e.isRead = false := by
  have hnone : (∀ e ∈ es, e.entered = none) → s'.body = some req ∧
      ∀ e ∈ es, e.isClose = false ∧ e.isRead = false :=
    fun hn => by cases (hn e he).symm.trans h
  cases step_cases hs with
  | loop a b th les hl ht => exact hnone (entered_threads ht (by cases hl <;> simp))
  | addReq t req' th les _ ht =>
    refine hnone fun e he => ?_
    rcases List.mem_append.mp he with he | he
    · exact entered_threads ht (by simp) e he
    · split at he <;> simp at he
      rw [he]
      rfl
  | lock t th les ht =>
    refine hnone fun e he => ?_
    rcases List.mem_append.mp he with he | he
    · exact entered_threads ht (by simp) e he
    · exact entered_lockResult s t e he
  | turn b th les ht =>
    obtain ⟨x, st, hm, hst, htcb⟩ := entered_loop he h
    obtain ⟨hb, rfl, hp⟩ := Uvloop.Threads.ran_of_step ht hm hst
    obtain rfl : b = .fire x := by injection hb
    refine ⟨?_, by simp [Event.isClose, Event.isRead]⟩
    rw [hp]
    exact htcb
  | perform req err => exact hnone (perform_cases { s with body := none } req err).entered
  | connectCb x status =>
    exact hnone (List.forall_mem_cons.mpr ⟨rfl, entered_notify s _ _⟩)
  | readCb x nread => exact hnone (readDone_cases s nread).entered
  | writeCb r status =>
    refine hnone ?_
    unfold written
    split
    · exact List.forall_mem_cons.mpr ⟨rfl, entered_notify _ _ _⟩
    · simp [crash, Event.entered]
  | closeCb x => exact hnone (closed_cases s x).entered
  | _ => exact hnone (by simp [Event.entered])

/-- What the loop thread has to execute stays so until it does, and nothing is delivered
meanwhile. -/
theorem Entered.body_kept (hi : s.Entered) (hb : s.body = some req)
    (hs : s.step w a = some (s', es)) (hne : ∀ err, a ≠ .perform err) :
    s'.body = some req ∧ ∀ e ∈ es, e.isClose = false ∧ e.isRead = false := by
  obtain ⟨y, hrun⟩ := hi (by simp [hb])
  have hbusy : s.threads.loop.position ≠ .polling := by simp [hrun]
  have hloop : ∀ les : List (Uvloop.Event Req), ∀ e ∈ les.map Event.loop,
      e.isClose = false ∧ e.isRead = false := by simp [Event.isClose, Event.isRead]
  cases step_cases hs with
  | obtained t ma buf r s₁ _ ht =>
    exact ⟨(takeSend_threads ht).2.2.1.trans hb, by simp [Event.isClose, Event.isRead]⟩
  | requesting t f s₁ req' _ hbegin =>
    exact ⟨(begin_cases hbegin).1.body.trans hb, by simp⟩
  | loop a b th les => exact ⟨hb, hloop les⟩
  | addReq t req' th les =>
    refine ⟨hb, fun e he => ?_⟩
    rcases List.mem_append.mp he with he | he
    · exact hloop les e he
    · split at he <;> simp at he
      simp [he, Event.isClose, Event.isRead]
  | lock t th les =>
    refine ⟨hb, fun e he => ?_⟩
    rcases List.mem_append.mp he with he | he
    · exact hloop les e he
    · unfold lockResult at he
      split at he <;> simp at he
      simp [he, Event.isClose, Event.isRead]
  | turn b th les ht hret =>
    rcases hi.turn_eq_fire ht hret with hn | ⟨x, rfl⟩
    · cases hb.symm.trans hn
    · obtain ⟨-, hturn⟩ := Uvloop.Threads.turn_cases ht
      cases Uvloop.turn_of_running hturn hrun
  | perform req' err => exact (hne err rfl).elim
  | connectCb x status hp | readCb x nread hp | writeCb r status hp | closeCb x hp =>
    exact (hbusy hp).elim
  | _ => exact ⟨hb, by simp [Event.isClose, Event.isRead]⟩

/-- The stream is over, or the loop thread is about to end it, or the program. -/
def Ending (s : Uvconnect) : Prop :=
  Over s.link ∨ s.body = some .closeConnect ∨ s.crashed = true

theorem Ending.step (he : s.Ending) (hi : s.ServerInv) (hg : serverSide s a)
    (hs : s.step w a = some (s', es)) :
    s'.Ending ∧ ∀ e ∈ es, e.isClose = false ∧ e.isRead = false := by
  rcases he with ho | hb | hc
  · obtain ⟨ho', hq⟩ := ho.move hi hg (streamMove hs)
    exact ⟨.inl ho', hq⟩
  · by_cases hperform : ∃ err, a = .perform err
    · obtain ⟨err, rfl⟩ := hperform
      obtain ⟨ho | hc, hq⟩ := hi.closed hb hs
      · exact ⟨.inl ho, hq⟩
      · exact ⟨.inr (.inr hc), hq⟩
    · obtain ⟨hb', hq⟩ := hi.entered.body_kept hb hs fun err ha => hperform ⟨err, ha⟩
      exact ⟨.inr (.inl hb'), hq⟩
  · simp [Uvconnect.step, hc] at hs

/-! ## Histories -/

structure Ends (tr : List Event) (s : Uvconnect) : Prop where
  pairwise : tr.Pairwise Event.Precedes
  lost : (∃ e ∈ tr, e.isClose = true) → Over s.link
  ending : (∃ e ∈ tr, e.isEnd = true) → s.Ending

theorem Ends.step (he : Ends tr s) (hi : s.ServerInv) (hg : serverSide s a)
    (hs : s.step w a = some (s', es)) : Ends (tr ++ es) s' := by
  have hm := streamMove hs
  obtain ⟨hpair, hlost⟩ := hi.lost hm
  have hend : ∀ e ∈ es, e.isEnd = true → e.isClose = true ∨ e.entered = some .closeConnect := by
    intro e _ h
    simpa [Event.isEnd] using h
  constructor
  case pairwise =>
    refine List.pairwise_append.mpr ⟨he.pairwise, ?_, fun e hm e' hm' h => ?_⟩
    · refine hpair.imp_of_mem fun hm hm' hc h => ?_
      rcases hend _ hm h with h | h
      · exact hc h
      · exact (body_of_entered hs hm h).2 _ hm'
    · exact ((he.ending ⟨e, hm, h⟩).step hi hg hs).2 e' hm'
  case lost =>
    rintro ⟨e, hm', h⟩
    rcases List.mem_append.mp hm' with hm' | hm'
    · exact ((he.lost ⟨e, hm', h⟩).move hi hg hm).1
    · exact hlost ⟨e, hm', h⟩
  case ending =>
    rintro ⟨e, hm', h⟩
    rcases List.mem_append.mp hm' with hm' | hm'
    · exact ((he.ending ⟨e, hm', h⟩).step hi hg hs).1
    · rcases hend e hm' h with h | h
      · exact .inl (hlost ⟨e, hm', h⟩)
      · exact .inr (.inl (body_of_entered hs hm' h).1)

theorem ends_of_reach (h : (connection w).Reach serverSide tr s) : Ends tr s := by
  refine h.invariant (fun s _ => ⟨.nil, by simp, by simp⟩) ?_
  intro tr s a s' es hr he hg hs
  exact he.step (serverInv_of_reach hr) hg hs

/-- `EV_CLOSE` is delivered at most once; after it, and after `CloseConnect`, there is no
`EV_READ`; and after it `wirteData` and `StartReadData` return false. -/
structure CloseFinal (w : ℕ) (tr : List Event) (s : Uvconnect) : Prop where
  once : (tr.filter Event.isClose).length ≤ 1
  last : tr.Pairwise fun e e' => e.isEnd = true → e'.isRead = false
  refused : (∃ e ∈ tr, e.isClose = true) → ∀ t s' es,
    (∀ buf, s.step w (.wirteData t buf) = some (s', es) → es = [.rejected t]) ∧
      (s.step w (.request t .startReadData) = some (s', es) → es = [.rejected t])

theorem Event.isEnd_of_isClose {e : Event} (h : e.isClose = true) : e.isEnd = true := by
  rw [isEnd, h, Bool.true_or]

theorem rejected_of_flag (hc : s.bConnectSuccess = false) :
    (∀ buf, s.step w (.wirteData t buf) = some (s', es) → es = [.rejected t]) ∧
      (s.step w (.request t .startReadData) = some (s', es) → es = [.rejected t]) := by
  constructor
  · intro buf hs
    cases step_cases hs with
    | loop _ _ _ _ hl => cases hl
    | rejected => rfl
    | checked _ _ _ hn => exact absurd (hc.symm.trans hn) Bool.false_ne_true
  · intro hs
    cases step_cases hs with
    | loop _ _ _ _ hl => cases hl
    | requestRejected => rfl
    | requesting _ _ s₁ req _ hb => simp [begin, hc] at hb

/-- On a connection that was accepted `EV_CLOSE` is final, whatever is queued when it is
delivered. -/
theorem closeFinal (h : (connection w).Reach serverSide tr s) : CloseFinal w tr s := by
  have he := ends_of_reach h
  constructor
  case once =>
    have hfalse : (tr.filter Event.isClose).Pairwise fun _ _ => False := by
      apply List.pairwise_filter.mpr
      apply he.pairwise.imp
      intro e e' he hc hc'
      exact absurd ((he (Event.isEnd_of_isClose hc)).1.symm.trans hc') Bool.false_ne_true
    match hl : tr.filter Event.isClose with
    | [] | [_] => simp
    | e :: e' :: rest =>
      rw [hl] at hfalse
      exact ((List.pairwise_cons.mp hfalse).1 e' List.mem_cons_self).elim
  case last => exact he.pairwise.imp fun he hend => (he hend).2
  case refused => exact fun hc t s' es => rejected_of_flag (he.lost hc).flag

/-- Requests to read that are executed after a failed read do nothing, nor do those that are
executed after `CloseConnect`. -/
theorem closeFinal_example :
    (∃ tr s, (connection 64).Reach serverSide tr s ∧
      tr.filter (fun e => e.isClose || e.isRead) = [.event .read 3, .event .close 0] ∧
      tr.filterMap Event.entered = [.readStart, .readStart, .closeConnect] ∧
      CloseFinal 64 tr s) ∧
    ∃ tr s, (connection 64).Reach serverSide tr s ∧
      tr.filter (fun e => e.isClose || e.isRead) = [.event .read 3] ∧
      tr.filterMap Event.entered = [.readStart, .closeConnect, .readStart] ∧
      .uvClose 0 .connected ∈ tr ∧ CloseFinal 64 tr s := by
  constructor
  · obtain ⟨tr, s, hr, hp⟩ := System.exists_run_of_exec (M := connection 64) (G := serverSide)
      (s := create (fun _ => .loopStop) fun _ => ⟨⟨none, 0, 0, 0⟩, ⟨none, 0⟩⟩)
      [.registerloopAndStream, .setEventHandler true, .run 1, .setRunning 1,
        .request 1 .startReadData, .addReq 1, .lock 1, .request 1 .startReadData, .addReq 1,
        .lock 1, .request 1 .closeConnection, .addReq 1, .lock 1, .turn (.fire 0), .perform 0,
        .turn .tcbReturn, .turn .recycle, .readCb 0 3, .readCb 0 (-1), .turn (.fire 1),
        .perform 0, .turn .tcbReturn, .turn .recycle, .turn (.fire 2), .perform 0,
        .request 1 .startReadData]
      (p := fun _ tr => decide (tr.filter (fun e => e.isClose || e.isRead) =
        [.event .read 3, .event .close 0] ∧
        tr.filterMap Event.entered = [.readStart, .readStart, .closeConnect]))
      (by decide +kernel)
    have h : (connection 64).Reach serverSide tr s := ⟨_, ⟨_, _, rfl⟩, hr⟩
    exact ⟨tr, s, h, (of_decide_eq_true hp).1, (of_decide_eq_true hp).2, closeFinal h⟩
  · obtain ⟨tr, s, hr, hp⟩ := System.exists_run_of_exec (M := connection 64) (G := serverSide)
      (s := create (fun _ => .loopStop) fun _ => ⟨⟨none, 0, 0, 0⟩, ⟨none, 0⟩⟩)
      [.registerloopAndStream, .setEventHandler true, .run 1, .setRunning 1,
        .request 1 .startReadData, .addReq 1, .lock 1, .request 1 .closeConnection, .addReq 1,
        .lock 1, .request 1 .startReadData, .addReq 1, .lock 1, .turn (.fire 0), .perform 0,
        .turn .tcbReturn, .turn .recycle, .readCb 0 3, .turn (.fire 1), .perform 0,
        .turn .tcbReturn, .turn .recycle, .turn (.fire 2), .perform 0, .turn .tcbReturn,
        .turn .recycle, .closeCb 0]
      (p := fun _ tr => decide (tr.filter (fun e => e.isClose || e.isRead) = [.event .read 3] ∧
        tr.filterMap Event.entered = [.readStart, .closeConnect, .readStart] ∧
        .uvClose 0 .connected ∈ tr)) (by decide +kernel)
    have h : (connection 64).Reach serverSide tr s := ⟨_, ⟨_, _, rfl⟩, hr⟩
    obtain ⟨hread, hentered, hclose⟩ := of_decide_eq_true hp
    exact ⟨tr, s, h, hread, hentered, hclose, closeFinal h⟩

end UvWrapper.Uvconnect
