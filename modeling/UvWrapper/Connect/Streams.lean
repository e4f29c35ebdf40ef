import UvWrapper.Connect.Moves

/-! # The streams of a connection

`m_pStream` and `m_bConnectSuccess` change where a stream is accepted or connected, where
one is closed and where reading fails. What happened to each stream is kept in a record of
the past; the flag is set only over a stream that has come to no harm since it was opened.
-/

namespace UvWrapper.Uvconnect

open Function Memory Transition

variable {w : ℕ} {s s' : Uvconnect} {a : Act} {es tr : List Event} {h : ℕ} {req : Req}

/-! ## Steps, as far as streams are concerned -/

/-- What a connection and libuv know of its streams. -/
structure Link where
  bConnectSuccess : Bool
  stream : Option ℕ
  tcps : ℕ
  tcp : ℕ → TcpState
  reading : ℕ → Bool

def link (s : Uvconnect) : Link := ⟨s.bConnectSuccess, s.stream, s.tcps, s.tcp, s.reading⟩

def Act.isStream : Act → Bool
  | .registerloopAndStream | .connectCb _ _ | .readCb _ _ => true
  | _ => false

def Event.isStream : Event → Bool
  | .uvWrite _ _ _ _ | .tcpInit _ | .tcpConnect _ _ | .connectCb _ _ | .uvClose _ _
  | .readStart _ _ | .readStop _ => true
  | .event ev _ => decide (ev ≠ .write)
  | _ => false

/-- What a step does with the streams. -/
inductive StreamMove (s : Uvconnect) : Act → Link → List Event → Prop
  | stay (a : Act) (es : List Event) : a.isStream = false → (∀ e ∈ es, e.isStream = false) →
      StreamMove s a s.link es
  | accept : StreamMove s .registerloopAndStream { s.link with
      bConnectSuccess := true
      stream := some s.tcps
      tcps := s.tcps + 1
      tcp := update s.tcp s.tcps .connected } []
  | dial (err : ℤ) : s.body = some .connect → StreamMove s (.perform err) { s.link with
      tcps := s.tcps + 1
      tcp := update s.tcp s.tcps (if err = 0 then .connecting else .inited) }
      [.tcpInit s.tcps, .tcpConnect s.tcps s.addr]
  | connected (h : ℕ) (status : ℤ) : s.tcp h = .connecting →
      StreamMove s (.connectCb h status) { s.link with
        bConnectSuccess := decide (status = 0)
        stream := some h
        tcp := update s.tcp h (if status = 0 then .connected else .refused) }
        (.connectCb h status :: s.notify .connect status)
  | close (h : ℕ) (err : ℤ) : s.body = some .closeConnect → s.stream = some h →
      StreamMove s (.perform err) { s.link with
        bConnectSuccess := false
        tcp := update s.tcp h .closing } [.uvClose h (s.tcp h)]
  | readStart (h : ℕ) (err : ℤ) : s.bConnectSuccess = true → s.stream = some h →
      StreamMove s (.perform err) { s.link with
        reading := update s.reading h (decide (s.tcp h = .connected)) } [.readStart h (s.tcp h)]
  | readStop (h : ℕ) (err : ℤ) : s.stream = some h →
      StreamMove s (.perform err) { s.link with reading := update s.reading h false }
        [.readStop h]
  | write (r h : ℕ) (err : ℤ) (bytes : List UInt8) (es : List Event) :
      s.bConnectSuccess = true → s.stream = some h → (∀ e ∈ es, e.isStream = false) →
      StreamMove s (.perform err) s.link (.uvWrite r h (s.tcp h) bytes :: es)
  | data (h : ℕ) (nread : ℤ) : 0 ≤ nread → s.tcp h = .connected → s.reading h = true →
      StreamMove s (.readCb h nread) s.link (s.notify .read nread)
  | lost (h h' : ℕ) (nread : ℤ) : nread < 0 → s.tcp h = .connected → s.reading h = true →
      s.stream = some h' → StreamMove s (.readCb h nread) { s.link with
        bConnectSuccess := false
        reading := update s.reading h' false } (.readStop h' :: s.notify .close 0)
  | orphan (h : ℕ) (nread : ℤ) : nread < 0 → s.tcp h = .connected → s.stream = none →
      StreamMove s (.readCb h nread) s.link [.fault]
  | closed (h : ℕ) (es : List Event) : s.tcp h = .closing → (∀ e ∈ es, e.isStream = false) →
      StreamMove s (.closeCb h) { s.link with tcp := update s.tcp h .closed } es

theorem isStream_loop (les : List (Uvloop.Event Req)) :
    ∀ e ∈ les.map Event.loop, e.isStream = false := by
  simp [Event.isStream]

theorem isStream_append {fs : List Event} (h : ∀ e ∈ es, e.isStream = false)
    (h' : ∀ e ∈ fs, e.isStream = false) : ∀ e ∈ es ++ fs, e.isStream = false := by
  intro e he
  exact (List.mem_append.mp he).elim (h e) (h' e)

theorem lockResult_isStream (s : Uvconnect) (t : ℕ) :
    ∀ e ∈ s.lockResult t, e.isStream = false := by
  unfold lockResult
  split <;> simp [Event.isStream]

theorem notify_write_isStream (s : Uvconnect) (arg : ℤ) :
    ∀ e ∈ s.notify .write arg, e.isStream = false := by
  unfold notify
  split <;> simp [Event.isStream]

theorem PerformCases.streamMove {err : ℤ}
    (hp : PerformCases { s with body := none } err req s' es) (hb : s.body = some req) :
    StreamMove s (.perform err) s'.link es := by
  cases hp with
  | connect => exact .dial err hb
  | other | skipped => exact .stay _ _ rfl (by simp)
  | fault | writeFault => exact .stay _ _ rfl (by simp [Event.isStream])
  | closeConnect h hst => exact .close h err hb hst
  | readStart h hc hst => exact .readStart h err hc hst
  | readStop h hst => exact .readStop h err hst
  | write r h hc hst => exact .write r h err _ [] hc hst (by simp)
  | writeRefused r h hc hst => exact .write r h err _ [.fault] hc hst (by simp [Event.isStream])

theorem ReadCases.streamMove {nread : ℤ} (hc : ReadCases s nread s' es)
    (ht : s.tcp h = .connected) (hr : s.reading h = true) :
    StreamMove s (.readCb h nread) s'.link es := by
  cases hc with
  | data hn => exact .data h nread hn ht hr
  | fault hn hst => exact .orphan h nread hn ht hst
  | lost h' hn hst => exact .lost h h' nread hn ht hr hst

theorem ClosedCases.link (hc : ClosedCases s h s' es) :
    s'.link = { s.link with tcp := update s.tcp h .closed } ∧ ∀ e ∈ es, e.isStream = false := by
  cases hc with
  | submitted loop les => exact ⟨rfl, isStream_loop les⟩
  | _ => exact ⟨rfl, by simp [Event.isStream]⟩

/-- Every step of the connection does one of these things with the streams. -/
theorem streamMove (hs : s.step w a = some (s', es)) : StreamMove s a s'.link es := by
  cases step_cases hs with
  | registerConnect | setEventHandler | setIPAndAddr | checked | filled =>
    exact .stay _ _ rfl (by simp [Event.isStream])
  | rejected | requestRejected | obtainFault | fillFault | addReqFault =>
    exact .stay _ _ rfl (by simp [Event.isStream])
  | registerloopAndStream => exact .accept
  | loop a b th les hl => cases hl <;> exact .stay _ _ rfl (isStream_loop les)
  | obtained t ma buf r s₁ hc ht =>
    obtain ⟨b, -, -, -, rfl⟩ | ⟨rest, -, rfl⟩ := takeSend_cases ht <;>
      exact .stay _ _ rfl (by simp [Event.isStream])
  | requesting t f s₁ req hidle hb =>
    cases f <;> obtain ⟨rfl, -⟩ := Prod.mk.inj hb <;> exact .stay _ _ rfl (by simp)
  | addReq t req th les =>
    refine .stay _ _ rfl (isStream_append (isStream_loop les) ?_)
    split <;> simp [Event.isStream]
  | lock t th les =>
    exact .stay _ _ rfl (isStream_append (isStream_loop les) (lockResult_isStream s t))
  | turn b th les => exact .stay _ _ rfl (isStream_loop les)
  | perform req err hb => exact (perform_cases { s with body := none } req err).streamMove hb
  | connectCb h status _ ht => exact .connected h status ht
  | readCb h nread _ ht hr => exact (readDone_cases s nread).streamMove ht hr
  | writeCb r status =>
    unfold written
    split
    · exact .stay _ _ rfl (List.forall_mem_cons.mpr ⟨rfl, notify_write_isStream s status⟩)
    · exact .stay _ _ rfl (by simp [crash, Event.isStream])
  | closeCb h _ ht =>
    obtain ⟨hl, he⟩ := (closed_cases s h).link
    rw [hl]
    exact .closed h _ ht he

theorem closeConnect_cases {err : ℤ} (hb : s.body = some .closeConnect)
    (hs : s.step w (.perform err) = some (s', es)) :
    (s.stream = none ∧ s'.link = s.link ∧ s'.crashed = true ∧ es = [.fault]) ∨
      ∃ h, s.stream = some h ∧
        s'.link = { s.link with bConnectSuccess := false, tcp := update s.tcp h .closing } ∧
        es = [.uvClose h (s.tcp h)] := by
  cases step_cases hs with
  | loop _ _ _ _ hl => cases hl
  | perform req _ hb' =>
    obtain rfl : req = .closeConnect := Option.some.inj (hb'.symm.trans hb)
    cases hst : s.stream with
    | none => exact .inl ⟨rfl, by simp [perform, closeConnect, hst, crash, link]⟩
    | some h => exact .inr ⟨h, rfl, by simp [perform, closeConnect, hst, link]⟩

/-! ## The past of each stream -/

/-- What happens to a stream: it is accepted or connected, its connect callback reports an
error, `uv_close` is called on it, or a read callback reports an error. -/
inductive Mark
  | opened (h : ℕ)
  | refused (h : ℕ)
  | closed (h : ℕ)
  | failed (h : ℕ)
  deriving DecidableEq

def Event.closing : Event → Option Mark
  | .uvClose h _ => some (.closed h)
  | _ => none

/-- What a step from `s` does to streams, by its label and its events. -/
def marks (s : Uvconnect) (a : Act) (es : List Event) : List Mark :=
  match a with
  | .registerloopAndStream => [.opened s.tcps]
  | .connectCb h status => if status = 0 then [.opened h] else [.refused h]
  | .readCb h nread => if nread < 0 then [.failed h] else []
  | _ => es.filterMap Event.closing

def watched (w : ℕ) : System (Uvconnect × List Mark) Act Event :=
  (connection w).observed [] fun s a es past => past ++ s.marks a es

/-- A stream that was accepted or connected, that has not been closed and on which no read
has failed. -/
def Live (past : List Mark) (h : ℕ) : Prop :=
  .opened h ∈ past ∧ .closed h ∉ past ∧ .failed h ∉ past

instance (past : List Mark) (h : ℕ) : Decidable (Live past h) :=
  inferInstanceAs (Decidable (_ ∧ _ ∧ _))

theorem closing_eq_none {e : Event} (h : e.isStream = false) : e.closing = none := by
  cases e <;> first | rfl | cases h

theorem marks_eq_nil (ha : a.isStream = false) (he : ∀ e ∈ es, e.closing = none) :
    s.marks a es = [] := by
  have hnil : es.filterMap Event.closing = [] := List.filterMap_eq_nil_iff.mpr he
  cases a <;> first | exact hnil | cases ha

/-- Handles are numbered in the order of their creation, a stream that was closed or has
failed is neither new nor connecting, and the flag is over a live stream. -/
structure StreamInv (past : List Mark) (l : Link) : Prop where
  fresh : ∀ h, l.tcps ≤ h → l.tcp h = .raw
  seat : ∀ h, l.stream = some h → h < l.tcps
  spent : ∀ h, .closed h ∈ past ∨ .failed h ∈ past → l.tcp h ≠ .raw ∧ l.tcp h ≠ .connecting
  live : l.bConnectSuccess = true → ∃ h, l.stream = some h ∧ Live past h

theorem StreamInv.of_reading {past : List Mark} {l : Link} (hi : StreamInv past l)
    (f : ℕ → Bool) : StreamInv past { l with reading := f } :=
  ⟨hi.fresh, hi.seat, hi.spent, hi.live⟩

theorem StreamInv.unspent {past : List Mark} {l : Link} (hi : StreamInv past l)
    (hx : l.tcp h = .raw ∨ l.tcp h = .connecting) : .closed h ∉ past ∧ .failed h ∉ past := by
  constructor <;> intro hm
  · exact hx.elim (hi.spent h (.inl hm)).1 (hi.spent h (.inl hm)).2
  · exact hx.elim (hi.spent h (.inr hm)).1 (hi.spent h (.inr hm)).2

theorem StreamInv.lt_tcps {past : List Mark} {l : Link} (hi : StreamInv past l)
    (hx : l.tcp h ≠ .raw) : h < l.tcps := by
  by_contra hn
  exact hx (hi.fresh h (not_lt.mp hn))

theorem StreamInv.fresh_update {past : List Mark} {l : Link} (hi : StreamInv past l)
    {st : TcpState} (hx : h < l.tcps) : ∀ x, l.tcps ≤ x → update l.tcp h st x = .raw := by
  intro x hle
  rw [update_of_ne (hx.trans_le hle).ne']
  exact hi.fresh x hle

theorem StreamInv.spent_update {past : List Mark} {l : Link} (hi : StreamInv past l)
    {st : TcpState} (hst : st ≠ .raw ∧ st ≠ .connecting) {x : ℕ}
    (hx : x ≠ h → .closed x ∈ past ∨ .failed x ∈ past) :
    update l.tcp h st x ≠ .raw ∧ update l.tcp h st x ≠ .connecting := by
  rcases eq_or_ne x h with rfl | hxh
  · simpa using hst
  · rw [update_of_ne hxh]
    exact hi.spent x (hx hxh)

theorem StreamInv.accept {past : List Mark} {l : Link} (hi : StreamInv past l) :
    StreamInv (past ++ [.opened l.tcps]) { l with
      bConnectSuccess := true
      stream := some l.tcps
      tcps := l.tcps + 1
      tcp := update l.tcp l.tcps .connected } := by
  have hraw : l.tcp l.tcps = .raw := hi.fresh l.tcps le_rfl
  have hnew : .closed l.tcps ∉ past ∧ .failed l.tcps ∉ past := hi.unspent (.inl hraw)
  constructor
  case fresh =>
    intro x hx
    have hlt : l.tcps < x := hx
    exact (update_of_ne hlt.ne' ..).trans (hi.fresh x hlt.le)
  case seat =>
    rintro x ⟨⟩
    exact Nat.lt_succ_self _
  case spent =>
    intro x hx
    exact hi.spent_update (by decide) fun _ => by simpa using hx
  case live => exact fun _ => ⟨l.tcps, rfl, by simp [Live, hnew]⟩

theorem StreamInv.dial {past : List Mark} {l : Link} {err : ℤ} (hi : StreamInv past l) :
    StreamInv past { l with
      tcps := l.tcps + 1
      tcp := update l.tcp l.tcps (if err = 0 then .connecting else .inited) } := by
  have hraw : l.tcp l.tcps = .raw := hi.fresh l.tcps le_rfl
  constructor
  case fresh =>
    intro x hx
    have hlt : l.tcps < x := hx
    exact (update_of_ne hlt.ne' ..).trans (hi.fresh x hlt.le)
  case seat => exact fun x hx => (hi.seat x hx).trans (Nat.lt_succ_self _)
  case spent =>
    intro x hx
    have hxn : x ≠ l.tcps := fun he => (hi.spent x hx).1 (he ▸ hraw)
    simpa only [update_of_ne hxn] using hi.spent x hx
  case live => exact hi.live

theorem StreamInv.connected {past : List Mark} {l : Link} {status : ℤ} (hi : StreamInv past l)
    (ht : l.tcp h = .connecting) :
    StreamInv (past ++ if status = 0 then [.opened h] else [.refused h]) { l with
      bConnectSuccess := decide (status = 0)
      stream := some h
      tcp := update l.tcp h (if status = 0 then .connected else .refused) } := by
  have hlt : h < l.tcps := hi.lt_tcps (by simp [ht])
  have hnew : .closed h ∉ past ∧ .failed h ∉ past := hi.unspent (.inr ht)
  constructor
  case fresh => exact hi.fresh_update hlt
  case seat =>
    rintro x ⟨⟩
    exact hlt
  case spent =>
    intro x hx
    exact hi.spent_update (by split <;> decide) fun _ => by split at hx <;> simpa using hx
  case live =>
    intro hc
    obtain rfl : status = 0 := of_decide_eq_true hc
    exact ⟨h, rfl, by simp [Live, hnew]⟩

theorem StreamInv.close {past : List Mark} {l : Link} (hi : StreamInv past l)
    (hst : l.stream = some h) : StreamInv (past ++ [.closed h]) { l with
      bConnectSuccess := false
      tcp := update l.tcp h .closing } := by
  constructor
  case fresh => exact hi.fresh_update (hi.seat h hst)
  case seat => exact hi.seat
  case spent =>
    intro x hx
    exact hi.spent_update (by decide) fun hxh => by simpa [hxh] using hx
  case live => nofun

theorem StreamInv.fail {past : List Mark} {l : Link} (hi : StreamInv past l)
    (ht : l.tcp h = .connected) (hc : l.bConnectSuccess = false) :
    StreamInv (past ++ [.failed h]) l := by
  constructor
  case fresh => exact hi.fresh
  case seat => exact hi.seat
  case spent =>
    intro x hx
    rcases eq_or_ne x h with rfl | hxh
    · rw [ht]
      decide
    · exact hi.spent x (by simpa [hxh] using hx)
  case live => exact fun h => absurd (hc.symm.trans h) Bool.false_ne_true

theorem StreamInv.closed {past : List Mark} {l : Link} (hi : StreamInv past l)
    (ht : l.tcp h = .closing) :
    StreamInv past { l with tcp := update l.tcp h .closed } := by
  have hlt : h < l.tcps := hi.lt_tcps (by simp [ht])
  constructor
  case fresh => exact hi.fresh_update hlt
  case seat => exact hi.seat
  case spent => exact fun x hx => hi.spent_update (by decide) fun _ => hx
  case live => exact hi.live

theorem StreamInv.move {past : List Mark} {l : Link} (hi : StreamInv past s.link)
    (hm : StreamMove s a l es) : StreamInv (past ++ s.marks a es) l := by
  have hunmarked : a.isStream = false → (∀ e ∈ es, e.closing = none) → StreamInv past l →
      StreamInv (past ++ s.marks a es) l := by
    intro ha he h
    rwa [marks_eq_nil ha he, List.append_nil]
  cases hm with
  | stay _ _ ha he => exact hunmarked ha (fun e hm => closing_eq_none (he e hm)) hi
  | accept => exact hi.accept
  | dial err => exact hunmarked rfl (by simp [Event.closing]) hi.dial
  | connected h status ht => exact hi.connected ht
  | close h err hb hst => exact hi.close hst
  | readStart h err | readStop h err =>
    exact hunmarked rfl (by simp [Event.closing]) (hi.of_reading _)
  | write r h err bytes es _ _ he =>
    refine hunmarked rfl (List.forall_mem_cons.mpr ⟨rfl, fun e hm => ?_⟩) hi
    exact closing_eq_none (he e hm)
  | data h nread hn => simpa [marks, not_lt.mpr hn] using hi
  | lost h h' nread hn ht =>
    rw [marks, if_pos hn]
    refine StreamInv.fail ?_ ht rfl
    exact ⟨hi.fresh, hi.seat, hi.spent, nofun⟩
  | orphan h nread hn ht hst =>
    rw [marks, if_pos hn]
    refine hi.fail ht (Bool.eq_false_iff.mpr fun hc => ?_)
    obtain ⟨x, hx, -⟩ := hi.live hc
    cases hst.symm.trans hx
  | closed h es ht he =>
    exact hunmarked rfl (fun e hm => closing_eq_none (he e hm)) (hi.closed ht)

theorem streamInv_of_reach {G : Uvconnect × List Mark → Act → Prop} {p : Uvconnect × List Mark}
    (h : (watched w).Reach G tr p) : StreamInv p.2 p.1.link := by
  refine h.stateInvariant (I := fun p => StreamInv p.2 p.1.link) ?_ ?_
  · rintro ⟨s, past⟩ ⟨⟨garbage, send, rfl⟩, rfl⟩
    exact ⟨fun _ _ => rfl, nofun, nofun, nofun⟩
  · intro tr p a p' es _ hi _ hs
    obtain ⟨hs, hp⟩ := System.observed_step.mp hs
    rw [hp]
    exact hi.move (streamMove hs)

/-! ## Reading and writing -/

/-- The flag is set over a live stream only, and so is every `uv_write` and
`uv_read_start` that a step issues. -/
structure OnLiveStream (w : ℕ) (p : Uvconnect × List Mark) : Prop where
  flag : p.1.bConnectSuccess = true → ∃ h, p.1.stream = some h ∧ Live p.2 h
  writes : ∀ a p' es, (watched w).step p a = some (p', es) →
    ∀ r h st bytes, .uvWrite r h st bytes ∈ es → Live p.2 h
  reads : ∀ a p' es, (watched w).step p a = some (p', es) →
    ∀ h st, .readStart h st ∈ es → Live p.2 h

theorem StreamMove.target {l : Link} (hm : StreamMove s a l es) {st : TcpState}
    (he : (∃ r bytes, .uvWrite r h st bytes ∈ es) ∨ .readStart h st ∈ es) :
    s.bConnectSuccess = true ∧ s.stream = some h := by
  have hquiet : ∀ {fs : List Event}, (∀ e ∈ fs, e.isStream = false) →
      ¬ ((∃ r bytes, .uvWrite r h st bytes ∈ fs) ∨ .readStart h st ∈ fs) := by
    rintro fs hf (⟨r, bytes, hm⟩ | hm) <;> cases hf _ hm
  have hnotify : ∀ {ev : EvType} {arg : ℤ},
      ¬ ((∃ r bytes, .uvWrite r h st bytes ∈ s.notify ev arg) ∨
        .readStart h st ∈ s.notify ev arg) := by
    intro ev arg
    unfold notify
    split <;> simp
  cases hm with
  | stay _ _ _ hf | closed _ _ _ hf => exact (hquiet hf he).elim
  | accept | dial | close | readStop | orphan => simp at he
  | connected x status | lost x x' nread => exact (hnotify (by simpa using he)).elim
  | data => exact (hnotify he).elim
  | readStart x err hc hst =>
    obtain ⟨rfl, -⟩ : h = x ∧ st = s.tcp x := by simpa using he
    exact ⟨hc, hst⟩
  | write r x err bytes fs hc hst hf =>
    rcases he with ⟨r', bytes', hm⟩ | hm
    · rcases List.mem_cons.mp hm with heq | hm
      · injection heq with _ hx
        exact ⟨hc, hx ▸ hst⟩
      · exact (hquiet hf (.inl ⟨r', bytes', hm⟩)).elim
    · rcases List.mem_cons.mp hm with heq | hm
      · cases heq
      · exact (hquiet hf (.inr hm)).elim

/-- Over any interleaving the connection reads from and writes to live streams only, also
for requests that were queued for another stream. -/
theorem onLiveStream {p : Uvconnect × List Mark}
    (h : (watched w).Reach (anyStep (Uvconnect × List Mark) Act) tr p) : OnLiveStream w p := by
  have hlive := (streamInv_of_reach h).live
  have htarget : ∀ x, p.1.bConnectSuccess = true ∧ p.1.stream = some x → Live p.2 x := by
    rintro x ⟨hc, hx⟩
    obtain ⟨y, hy, hl⟩ := hlive hc
    obtain rfl : x = y := Option.some.inj (hx.symm.trans hy)
    exact hl
  refine ⟨hlive, fun a p' es hs r x st bytes he => ?_, fun a p' es hs x st he => ?_⟩
  · exact htarget x ((streamMove (System.observed_step.mp hs).1).target (.inl ⟨r, bytes, he⟩))
  · exact htarget x ((streamMove (System.observed_step.mp hs).1).target (.inr he))

/-- A write that was queued on an accepted stream is issued on the stream that has been
connected since. -/
theorem onLiveStream_example : ∃ tr p,
    (watched 64).Reach (anyStep (Uvconnect × List Mark) Act) tr p ∧
      .uvWrite 0 1 .connected [7] ∈ tr ∧ p.2 = [.opened 0, .opened 1] ∧ OnLiveStream 64 p := by
  let ok : Answer := ⟨true, 1, fun _ => 0⟩
  obtain ⟨tr, p, hr, hp⟩ := System.exists_run_of_exec (M := watched 64)
    (G := anyStep (Uvconnect × List Mark) Act)
    (s := (create (fun _ => .loopStop) fun _ => ⟨⟨none, 0, 0, 0⟩, ⟨none, 0⟩⟩, []))
    [.registerloopAndStream, .run 1, .setRunning 1, .wirteData 1 [7], .takeSend 1 ok,
      .readmem 1 ok ok, .addReq 1, .lock 1, .request 1 .connectToServer, .addReq 1, .lock 1,
      .turn (.fire 1), .perform 0, .turn .tcbReturn, .turn .recycle, .connectCb 1 0,
      .turn (.fire 0), .perform 0]
    (p := fun p tr => decide (.uvWrite 0 1 .connected [7] ∈ tr ∧ p.2 = [.opened 0, .opened 1]))
    (by decide +kernel)
  have h : (watched 64).Reach (anyStep (Uvconnect × List Mark) Act) tr p :=
    ⟨_, ⟨⟨_, _, rfl⟩, rfl⟩, hr⟩
  exact ⟨tr, p, h, (of_decide_eq_true hp).1, (of_decide_eq_true hp).2, onLiveStream h⟩

end UvWrapper.Uvconnect
