import UvWrapper.Connect.Steps
import UvWrapper.Lib.Ownership
import UvWrapper.Lib.Update
import UvWrapper.Loop.Passes

/-! # Who holds a send record

From `wirteData`'s lock to the write callback a record is held by the calling thread, then
by the handle that carries its request, then by the loop thread and then by libuv. Each step
of the connection hands a record on, drops one, or has nothing to do with records.
-/

namespace UvWrapper.Uvconnect

open Function Memory Ownership

variable {w : ℕ} {s s' : Uvconnect} {a : Act} {es : List Event} {t r h : ℕ} {req : Req}

/-- Those who may hold a record. -/
inductive Holder
  | caller (t : ℕ)
  | handle (h : ℕ)
  | body
  | libuv
  deriving DecidableEq

/-- A caller holds the record it has obtained until its call of `AddReq` has returned; a
handle, the loop thread and libuv hold the record of a `tcpWrite` in turn. -/
def Holds (s : Uvconnect) : Holder → ℕ → Prop
  | .caller t, r => (∃ buf, s.call t = .obtained r buf) ∨ s.call t = .requesting (.tcpWrite r) ∨
      ∃ e, s.threads.call t = .locking (.addReq e (some (.tcpWrite r)))
  | .handle h, r => s.threads.loop.carries h = some (.tcpWrite r)
  | .body, r => s.body = some (.tcpWrite r)
  | .libuv, r => (s.writing r).isSome

def Event.isRecord : Event → Bool
  | .obtained _ _ _ | .uvWrite _ _ _ _ | .writeCb _ _ | .derefEnd _ => true
  | _ => false

structure Kept (s s' : Uvconnect) : Prop where
  dSend : s'.dSend = s.dSend
  mapSend : s'.mapSend = s.mapSend
  created : s'.created = s.created
  writing : s'.writing = s.writing
  tsafebuf : ∀ r, (s'.send r).tsafebuf = (s.send r).tsafebuf

/-- No thread is at another place in the first half of `wirteData`, except that a new
call may have begun. -/
structure CallsKept (s : Uvconnect) (a : Act) (s' : Uvconnect) : Prop where
  obtained : ∀ t r p, s.call t = .obtained r p ↔ s'.call t = .obtained r p
  checked : ∀ t p, s'.call t = .checked p → s.call t = .checked p ∨ a = .wirteData t p

theorem CallsKept.of_eq (h : s'.call = s.call) : CallsKept s a s' :=
  ⟨fun t r p => by rw [h], fun t p hp => .inl (h ▸ hp)⟩

theorem CallsKept.of_update {c : Writer} (h : s'.call = update s.call t c)
    (hold : ∀ r p, s.call t ≠ .obtained r p) (hnew : ∀ r p, c ≠ .obtained r p)
    (hchecked : ∀ p, c = .checked p → a = .wirteData t p) : CallsKept s a s' := by
  constructor
  · intro u r p
    rw [h, Update.update_eq_iff_of_ne (hold r p) (hnew r p)]
  · intro u p hu
    rw [h] at hu
    rcases eq_or_ne u t with rfl | hut
    · exact .inr (hchecked p (by simpa using hu))
    · exact .inl (by simpa [hut] using hu)

theorem holds_caller_congr (hc : s'.call t = s.call t)
    (ht : s'.threads.call t = s.threads.call t) :
    s'.Holds (.caller t) r ↔ s.Holds (.caller t) r := by
  simp only [Holds, hc, ht]

theorem holds_caller_of_eq (h : s'.Holds (.caller t) r) (hc : s'.call t = s.call t)
    (ht : s'.threads.call t = s.threads.call t) : s.Holds (.caller t) r :=
  (holds_caller_congr hc ht).mp h

theorem holds_congr {o : Holder} (hcaller : s'.Holds (.caller t) r ↔ s.Holds (.caller t) r)
    (hc : ∀ u ≠ t, s'.call u = s.call u ∧ s'.threads.call u = s.threads.call u)
    (hcarry : s'.threads.loop.carries = s.threads.loop.carries) (hb : s'.body = s.body)
    (hw : s'.writing = s.writing) : s'.Holds o r ↔ s.Holds o r := by
  cases o with
  | caller u =>
    rcases eq_or_ne u t with rfl | hut
    · exact hcaller
    · exact holds_caller_congr (hc u hut).1 (hc u hut).2
  | handle h => simp only [Holds, hcarry]
  | body => simp only [Holds, hb]
  | libuv => simp only [Holds, hw]

/-- What a step does with the send records. -/
inductive RecordMove (w : ℕ) (s : Uvconnect) : Act → Uvconnect → List Event → Prop
  | keep (a : Act) (s' : Uvconnect) (es : List Event) : Kept s s' → CallsKept s a s' →
      (∀ o x, s'.Holds o x → s.Holds o x) → (∀ e ∈ es, e.isRecord = false) →
      RecordMove w s a s' es
  | give (a : Act) (s' : Uvconnect) (es : List Event) (i j : Holder) (r : ℕ) : Kept s s' →
      CallsKept s a s' → s.Holds i r → (∀ t p, i = .caller t → s.call t ≠ .obtained r p) →
      (∀ t, j ≠ .caller t) →
      (∀ o x, s'.Holds o x → (o = j ∧ x = r) ∨ (s.Holds o x ∧ ¬ (o = i ∧ x = r))) →
      (∀ e ∈ es, e.isRecord = false) → RecordMove w s a s' es
  | obtain (t : ℕ) (ma : Answer) (buf : List UInt8) (r : ℕ) (s₁ : Uvconnect) :
      s.call t = .checked buf → s.takeSend ma = some (r, s₁) →
      RecordMove w s (.takeSend t ma) { s₁ with call := update s.call t (.obtained r buf) }
        [.obtained t r buf]
  | fill (t : ℕ) (ma re : Answer) (r : ℕ) (buf : List UInt8) (b : Safebuffer) (ok : Bool) :
      s.call t = .obtained r buf →
      (s.send r).tsafebuf.readmem w buf ma re = some (b, ok) →
      RecordMove w s (.readmem t ma re) { s with
        send := update s.send r { s.send r with tsafebuf := b }
        call := update s.call t (.requesting (.tcpWrite r)) } [.filled t r ok]
  | write (r h : ℕ) : s.body = some (.tcpWrite r) → s.bConnectSuccess = true →
      s.stream = some h →
      RecordMove w s (.perform 0) { s with
        body := none
        send := update s.send r { s.send r with tbuf := sendBuf (s.send r) }
        writing := update s.writing r (some (sendBuf (s.send r))) }
        [.uvWrite r h (s.tcp h) ((s.send r).tsafebuf.covered (sendBuf (s.send r)))]
  | complete (r : ℕ) (status : ℤ) : (s.writing r).isSome →
      RecordMove w s (.writeCb r status) (s.written r status).1 (s.written r status).2

/-! ## Functions that leave threads and records alone -/

structure Apart (s s' : Uvconnect) : Prop extends Kept s s' where
  threads : s'.threads = s.threads
  call : s'.call = s.call
  body : s'.body = s.body

theorem Apart.holds {o : Holder} (h : Apart s s') : s'.Holds o r ↔ s.Holds o r := by
  cases o <;> simp only [Holds, h.threads, h.call, h.body, h.writing]

theorem Apart.move (h : Apart s s') (he : ∀ e ∈ es, e.isRecord = false) :
    RecordMove w s a s' es :=
  .keep a s' es h.toKept (.of_eq h.call) (fun _ _ => h.holds.mp) he

theorem notify_isRecord (s : Uvconnect) (ev : EvType) (arg : ℤ) :
    ∀ e ∈ s.notify ev arg, e.isRecord = false := by
  unfold notify
  split <;> simp [Event.isRecord]

theorem apart_of_fields (hd : s'.dSend = s.dSend) (hm : s'.mapSend = s.mapSend)
    (hc : s'.created = s.created) (hw : s'.writing = s.writing) (hs : s'.send = s.send)
    (ht : s'.threads = s.threads) (hl : s'.call = s.call) (hb : s'.body = s.body) :
    Apart s s' :=
  ⟨⟨hd, hm, hc, hw, fun r => by rw [hs]⟩, ht, hl, hb⟩

theorem PerformCases.apart {err : ℤ} (h : PerformCases s err req s' es) :
    (Apart s s' ∧ ∀ e ∈ es, e.isRecord = false) ∨
      ∃ r x, req = .tcpWrite r ∧ s.bConnectSuccess = true ∧ s.stream = some x ∧
        (err = 0 → s' = { s with
            send := update s.send r { s.send r with tbuf := sendBuf (s.send r) }
            writing := update s.writing r (some (sendBuf (s.send r))) } ∧
          es = [.uvWrite r x (s.tcp x)
            ((s.send r).tsafebuf.covered (sendBuf (s.send r)))]) := by
  cases h with
  | write r x hc hst => exact .inr ⟨r, x, rfl, hc, hst, fun _ => ⟨rfl, rfl⟩⟩
  | writeRefused r x hc hst hne => exact .inr ⟨r, x, rfl, hc, hst, fun he => absurd he hne⟩
  | writeFault r =>
    refine .inl ⟨⟨⟨rfl, rfl, rfl, rfl, fun x => ?_⟩, rfl, rfl, rfl⟩, by simp [Event.isRecord]⟩
    exact Update.apply_update_of_eq (g := StSend.tsafebuf) rfl
  | _ =>
    exact .inl ⟨apart_of_fields rfl rfl rfl rfl rfl rfl rfl rfl,
      by simp [Uvconnect.connect, Event.isRecord]⟩

theorem PerformCases.threads {err : ℤ} (h : PerformCases s err req s' es) :
    s'.threads = s.threads ∧ s'.call = s.call ∧ s'.body = s.body := by
  cases h <;> exact ⟨rfl, rfl, rfl⟩

theorem apart_connected (s : Uvconnect) (h : ℕ) (status : ℤ) :
    Apart s (s.connected h status).1 ∧ ∀ e ∈ (s.connected h status).2, e.isRecord = false :=
  ⟨apart_of_fields rfl rfl rfl rfl rfl rfl rfl rfl,
    List.forall_mem_cons.mpr ⟨rfl, notify_isRecord s _ _⟩⟩

theorem ReadCases.apart {nread : ℤ} (h : ReadCases s nread s' es) :
    Apart s s' ∧ ∀ e ∈ es, e.isRecord = false := by
  cases h with
  | data => exact ⟨apart_of_fields rfl rfl rfl rfl rfl rfl rfl rfl, notify_isRecord s _ _⟩
  | fault => exact ⟨apart_of_fields rfl rfl rfl rfl rfl rfl rfl rfl, by simp [Event.isRecord]⟩
  | lost =>
    exact ⟨apart_of_fields rfl rfl rfl rfl rfl rfl rfl rfl,
      List.forall_mem_cons.mpr ⟨rfl, notify_isRecord s _ _⟩⟩

/-- The close callback leaves all but the loop alone, to which it may submit a connect
request. -/
theorem ClosedCases.apart {x : ℕ} (h : ClosedCases s x s' es) :
    (Apart s s' ∧ ∀ e ∈ es, e.isRecord = false) ∨
      ∃ loop les s₁, Apart s s₁ ∧
        s.threads.loop.submit (.addReq .tcpConnect (some .connect)) = (loop, les) ∧
        s' = { s₁ with threads := { s.threads with loop } } ∧ es = les.map .loop := by
  cases h with
  | submitted loop les _ _ _ hsub =>
    exact .inr ⟨loop, les, { s with tcp := update s.tcp x .closed, bReconect := false },
      apart_of_fields rfl rfl rfl rfl rfl rfl rfl rfl, hsub, rfl, rfl⟩
  | _ => exact .inl ⟨apart_of_fields rfl rfl rfl rfl rfl rfl rfl rfl, by simp [Event.isRecord]⟩

theorem begin_cases {f : Api} {s₁ : Uvconnect} (h : s.begin f = (s₁, some req)) :
    Apart s s₁ ∧ (∀ r, req ≠ .tcpWrite r) ∧
      (req.eType = .loopStop → ∃ id, f = .other .loopStop id) := by
  cases f with
  | startReadData =>
    simp only [begin, Prod.mk.injEq, Option.ite_none_right_eq_some, Option.some.injEq] at h
    obtain ⟨rfl, -, rfl⟩ := h
    exact ⟨apart_of_fields rfl rfl rfl rfl rfl rfl rfl rfl, by simp, by simp [Req.eType]⟩
  | other e id =>
    obtain ⟨rfl, hr⟩ := Prod.mk.inj h
    obtain rfl := Option.some.inj hr
    refine ⟨apart_of_fields rfl rfl rfl rfl rfl rfl rfl rfl, by simp, fun he => ⟨id, ?_⟩⟩
    rw [← he]
    rfl
  | connectToServer | closeConnection | reconnnect | stopReadData =>
    obtain ⟨rfl, hr⟩ := Prod.mk.inj h
    obtain rfl := Option.some.inj hr
    exact ⟨apart_of_fields rfl rfl rfl rfl rfl rfl rfl rfl, by simp, by simp [Req.eType]⟩

/-! ## The loop under a connection -/

/-- No other user of the loop adds an `E_LOOP_STOP`. -/
def typed (_ : Uvconnect) : Act → Prop
  | .request _ (.other eEventType _) => eEventType ≠ .loopStop
  | _ => True

/-- The loop's invariant, requests of the right type on the way to it, and no thread in two
functions at once. -/
structure LoopInv (s : Uvconnect) : Prop where
  threads : s.threads.Inv
  types : ∀ t req, s.call t = .requesting req → req.eType ≠ .loopStop
  single : ∀ t, s.call t = .idle ∨ s.threads.call t = .idle

theorem LoopInv.of_threads (hi : s.LoopInv) (ht : s'.threads = s.threads)
    (hc : s'.call = s.call) : s'.LoopInv :=
  ⟨ht ▸ hi.threads, by rw [hc]; exact hi.types, by rw [hc, ht]; exact hi.single⟩

theorem LoopInv.of_apart (hi : s.LoopInv) (h : Apart s s') : s'.LoopInv :=
  hi.of_threads h.threads h.call

theorem LoopInv.setCall (hi : s.LoopInv) {c : Writer} (ht : s'.threads = s.threads)
    (hc : s'.call = update s.call t c) (htypes : ∀ req, c = .requesting req → req.eType ≠ .loopStop)
    (hidle : s.threads.call t = .idle) : s'.LoopInv := by
  refine ⟨ht ▸ hi.threads, fun u req hu => ?_, fun u => ?_⟩
  · rw [hc] at hu
    rcases eq_or_ne u t with rfl | hut
    · exact htypes req (by simpa using hu)
    · exact hi.types u req (by simpa [hut] using hu)
  · rw [hc, ht]
    rcases eq_or_ne u t with rfl | hut
    · exact .inr hidle
    · simpa [hut] using hi.single u

theorem LoopInv.idle_of_call (hi : s.LoopInv) (hc : s.call t ≠ .idle) :
    s.threads.call t = .idle :=
  (hi.single t).resolve_left hc

theorem takeSend_cases {ma : Answer} {s₁ : Uvconnect} (h : s.takeSend ma = some (r, s₁)) :
    (∃ b, s.dSend = [] ∧ Safebuffer.create ma = some b ∧ r = s.created ∧ s₁ = { s with
        send := update s.send r { s.send r with tsafebuf := b }
        created := s.created + 1
        mapSend := insert r s.mapSend }) ∨
      ∃ rest, s.dSend = r :: rest ∧ s₁ = { s with
        dSend := rest
        send := update s.send r { s.send r with tsafebuf := (s.send r).tsafebuf.clearMem }
        mapSend := insert r s.mapSend } := by
  unfold takeSend at h
  split at h
  · next hd =>
    obtain ⟨b, hb, he⟩ := Option.map_eq_some_iff.mp h
    obtain ⟨rfl, rfl⟩ := Prod.mk.inj he
    exact .inl ⟨b, hd, hb, rfl, rfl⟩
  · next x rest hd =>
    obtain ⟨rfl, rfl⟩ := Prod.mk.inj (Option.some.inj h)
    exact .inr ⟨rest, hd, rfl⟩

theorem takeSend_threads {ma : Answer} {s₁ : Uvconnect} (h : s.takeSend ma = some (r, s₁)) :
    s₁.threads = s.threads ∧ s₁.call = s.call ∧ s₁.body = s.body ∧ s₁.writing = s.writing := by
  obtain ⟨b, -, -, -, rfl⟩ | ⟨rest, -, rfl⟩ := takeSend_cases h <;> exact ⟨rfl, rfl, rfl, rfl⟩

theorem LoopInv.threadStep (hi : s.LoopInv) {b : Uvloop.Act Req} {th : Uvloop.Threads Req}
    {les : List (Uvloop.Event Req)} (ht : s.threads.step b = some (th, les))
    (hb : Uvloop.callersBehave s.threads b) (hidle : ∀ u, b.thread = some u → s.call u = .idle) :
    LoopInv { s with threads := th } := by
  refine ⟨hi.threads.step hb ht, hi.types, fun u => ?_⟩
  by_cases hu : b.thread = some u
  · exact .inl (hidle u hu)
  · rw [Uvloop.Threads.call_of_ne ht hu]
    exact hi.single u

theorem LoopInv.step (hi : s.LoopInv) (hg : typed s a) (hs : s.step w a = some (s', es)) :
    s'.LoopInv := by
  cases step_cases hs with
  | registerConnect | registerloopAndStream | setEventHandler | setIPAndAddr | obtainFault
  | fillFault | addReqFault =>
    exact hi.of_apart (apart_of_fields rfl rfl rfl rfl rfl rfl rfl rfl)
  | rejected | requestRejected => exact hi
  | loop a b th les hl ht =>
    cases hl with
    | run t hidle | stop t hidle =>
      apply hi.threadStep ht trivial
      intro u hu
      obtain rfl := Option.some.inj hu
      exact hidle.1
    | setRunning t =>
      apply hi.threadStep ht trivial
      intro u hu
      obtain rfl := Option.some.inj hu
      exact (hi.single t).resolve_right (Uvloop.Threads.busy ht (.inr rfl))
  | checked t buf hidle => exact hi.setCall rfl rfl nofun hidle.2
  | obtained t ma buf r s₁ hc ht =>
    obtain ⟨hth, hcall, -⟩ := takeSend_threads ht
    exact hi.setCall (t := t) (c := .obtained r buf) hth rfl nofun
      (hi.idle_of_call (by rw [hc]; nofun))
  | filled t ma re r buf b ok hc hr =>
    refine hi.setCall (t := t) (c := .requesting (.tcpWrite r)) rfl rfl ?_
      (hi.idle_of_call (by rw [hc]; nofun))
    rintro _ ⟨⟩
    nofun
  | requesting t f s₁ req hidle hb =>
    obtain ⟨hap, -, hstop⟩ := begin_cases hb
    refine hi.setCall (t := t) (c := .requesting req) hap.threads rfl ?_ hidle.2
    rintro _ ⟨⟩ he
    obtain ⟨id, rfl⟩ := hstop he
    exact hg rfl
  | addReq t req th les hc ht =>
    have hb : Uvloop.callersBehave s.threads (.call t (.addReq req.eType (some req))) :=
      ⟨hi.types t req hc, rfl⟩
    refine ⟨hi.threads.step hb ht, fun u req' hu => ?_, fun u => ?_⟩
    · exact hi.types u req' (Update.of_update (by simp) hu).2
    · rcases eq_or_ne u t with rfl | hut
      · exact .inl (update_self ..)
      · rw [Uvloop.Threads.call_of_ne ht (by simpa [Uvloop.Act.thread] using Ne.symm hut)]
        simpa [hut] using hi.single u
  | lock t th les ht =>
    apply hi.threadStep ht trivial
    intro u hu
    obtain rfl := Option.some.inj hu
    exact (hi.single t).resolve_right (Uvloop.Threads.busy ht (.inl rfl))
  | turn a th les ht _ =>
    have h := hi.threadStep ht trivial nofun
    exact ⟨h.threads, h.types, h.single⟩
  | perform req err hb =>
    obtain ⟨hth, hcall, -⟩ := (perform_cases { s with body := none } req err).threads
    exact hi.of_threads hth hcall
  | connectCb h status => exact hi.of_apart (apart_connected s h status).1
  | readCb h nread => exact hi.of_apart (readDone_cases s nread).apart.1
  | writeCb r status =>
    unfold written
    split <;> exact ⟨hi.threads, hi.types, hi.single⟩
  | closeCb h =>
    rcases (closed_cases s h).apart with ⟨hap, -⟩ | ⟨loop, les, s₁, hap, hsub, he, -⟩
    · exact hi.of_apart hap
    · have h₁ := hi.of_apart hap
      have hf : (Uvloop.Fill.addReq .tcpConnect (some Req.connect)).Callable := ⟨nofun, rfl⟩
      have hl := hi.threads.loop.submit hf
      rw [hsub] at hl
      rw [he]
      refine ⟨⟨hl, hi.threads.callable⟩, h₁.types, fun u => ?_⟩
      rw [← hap.threads]
      exact h₁.single u

/-! ## Who holds a record after a step -/

theorem not_holds_caller (hc : s.call t = .idle) (ht : s.threads.call t = .idle) :
    ¬ s.Holds (.caller t) r := by
  simp [Holds, hc, ht]

theorem LoopInv.holds_unique (hi : s.LoopInv) {o : Holder} {x y : ℕ} (ho : o ≠ .libuv)
    (hx : s.Holds o x) (hy : s.Holds o y) : y = x := by
  cases o with
  | caller t =>
    rcases hi.single t with hc | hc
    · simp only [Holds, hc, reduceCtorEq, exists_false, false_or] at hx hy
      grind
    · simp only [Holds, hc, reduceCtorEq, exists_false, or_false] at hx hy
      grind
  | handle h | body => simpa using (hx.symm.trans hy).symm
  | libuv => exact (ho rfl).elim

theorem LoopInv.holds_loop (hi : s.LoopInv) {b : Uvloop.Act Req} {th : Uvloop.Threads Req}
    {les : List (Uvloop.Event Req)} (hb : LoopAct s a b) (ht : s.threads.step b = some (th, les))
    (o : Holder) (x : ℕ) : Holds { s with threads := th } o x ↔ s.Holds o x := by
  have hcarry : th.loop.carries = s.threads.loop.carries := by
    cases hb <;> exact Uvloop.Threads.carries_of_quiet ht nofun nofun
  have hthread : ∀ {t}, b.thread = some t → ¬ s.Holds (.caller t) x →
      ¬ Holds { s with threads := th } (.caller t) x →
      (Holds { s with threads := th } o x ↔ s.Holds o x) := by
    intro t hbt hno hno'
    refine holds_congr (t := t) (iff_of_false hno' hno) (fun u hut => ⟨rfl, ?_⟩) hcarry rfl rfl
    apply Uvloop.Threads.call_of_ne ht
    simpa [hbt] using hut.symm
  cases hb with
  | run t hidle =>
    apply hthread rfl (not_holds_caller hidle.1 hidle.2)
    cases Uvloop.Threads.step_cases ht
    simp [Holds, hidle.1]
  | setRunning t =>
    have hidle : s.call t = .idle :=
      (hi.single t).resolve_right (Uvloop.Threads.busy ht (.inr rfl))
    cases Uvloop.Threads.step_cases ht with
    | setRunning _ hc => exact hthread rfl (by simp [Holds, hidle, hc]) (by simp [Holds, hidle])
  | stop t hidle =>
    have hno : ¬ s.Holds (.caller t) x := not_holds_caller hidle.1 hidle.2
    cases Uvloop.Threads.step_cases ht with
    | called => exact hthread rfl hno (by simp [Holds, hidle.1])
    | refused => exact hthread rfl hno hno

theorem LoopInv.holds_addReq (hi : s.LoopInv) {th : Uvloop.Threads Req}
    {les : List (Uvloop.Event Req)} (hc : s.call t = .requesting req)
    (ht : s.threads.step (.call t (.addReq req.eType (some req))) = some (th, les)) :
    (s.threads.loop.bRunning = true ∧ ∀ o x,
      (Holds { s with threads := th, call := update s.call t .idle } o x ↔ s.Holds o x)) ∨
    (s.threads.loop.bRunning = false ∧ Handover s.Holds (.caller t) none
      (Holds { s with threads := th, call := update s.call t .idle })) := by
  have hidle : s.threads.call t = .idle := hi.idle_of_call (by simp [hc])
  have hcarry : th.loop.carries = s.threads.loop.carries :=
    Uvloop.Threads.carries_of_quiet ht nofun nofun
  have hothers : ∀ u ≠ t, update s.call t .idle u = s.call u ∧ th.call u = s.threads.call u := by
    intro u hut
    have hne : (Uvloop.Act.call t (.addReq req.eType (some req))).thread ≠ some u := by
      simpa [Uvloop.Act.thread] using hut.symm
    exact ⟨update_of_ne hut .., Uvloop.Threads.call_of_ne ht hne⟩
  cases Uvloop.Threads.step_cases ht with
  | called _ _ _ hrun =>
    refine .inl ⟨hrun, fun o x => holds_congr (t := t) ?_ hothers hcarry rfl rfl⟩
    cases req with
    | tcpWrite r => simp [Holds, hc, hidle, Req.eType]
    | _ => simp [Holds, hc, hidle]
  | refused _ _ _ hrun =>
    refine .inr ⟨hrun, fun x => by simp [Holds, hidle], by simp, fun o ho _ x => ?_⟩
    cases o with
    | caller u => exact holds_caller_congr (hothers u (by simpa using ho)).1 rfl
    | handle | body | libuv => exact Iff.rfl

/-- `AddReq` leaves its lock: the record goes to a handle that carried nothing, or the
caller drops it. -/
theorem LoopInv.holds_lock (hi : s.LoopInv) {th : Uvloop.Threads Req}
    {les : List (Uvloop.Event Req)} (ht : s.threads.step (.lock t) = some (th, les)) :
    (s.threads.loop.dAsync = [] ∧
      Handover s.Holds (.caller t) none (Holds { s with threads := th })) ∨
    ∃ h, s.threads.loop.dAsync ≠ [] ∧ (∀ x, ¬ s.Holds (.handle h) x) ∧
      Handover s.Holds (.caller t) (some (.handle h)) (Holds { s with threads := th }) := by
  obtain ⟨fill, hfill, hcall, hsub⟩ := Uvloop.Threads.lock_cases ht
  have hidle : s.call t = .idle := (hi.single t).resolve_right (by simp [hfill])
  have hempty : ∀ x, ¬ Holds { s with threads := th } (.caller t) x :=
    fun x => not_holds_caller hidle (by simp [hcall])
  have hothers : ∀ u x, u ≠ t → (Holds { s with threads := th } (.caller u) x ↔
      s.Holds (.caller u) x) :=
    fun u x hut => holds_caller_congr rfl (by simp [hcall, hut])
  rcases Uvloop.submit_cases s.threads.loop fill with ⟨hd, he⟩ | ⟨h, l', htake, he⟩
  · have hloop : th.loop = s.threads.loop := (Prod.mk.inj (hsub.symm.trans he)).1
    refine .inl ⟨hd, hempty, by simp, fun o ho _ x => ?_⟩
    cases o with
    | caller u => exact hothers u x (by simpa using ho)
    | handle h => simp only [Holds, hloop]
    | body | libuv => exact Iff.rfl
  · have hloop : th.loop = l' := (Prod.mk.inj (hsub.symm.trans he)).1
    have hd : s.threads.loop.dAsync ≠ [] := fun hd => by
      simp [Uvloop.takeAsync_eq_none.mpr hd] at htake
    obtain ⟨hnone, hcarry⟩ := hi.threads.loop.carries_of_take htake
    rw [← hloop] at hcarry
    refine .inr ⟨h, hd, fun x => by simp [Holds, hnone], hempty, ?_, fun o ho hh x => ?_⟩
    · rintro _ ⟨⟩ x
      have hcallable := hi.threads.callable t fill hfill
      simp only [Holds, hidle, hfill, hcarry, update_self, reduceCtorEq, exists_false, false_or]
      constructor
      · intro hx
        obtain ⟨e, rfl⟩ := Uvloop.Fill.of_callback hx
        exact ⟨e, rfl⟩
      · rintro ⟨e, hx⟩
        obtain rfl := Uvloop.Call.locking.inj hx
        exact if_pos hcallable.1
    · cases o with
      | caller u => exact hothers u x (by simpa using ho)
      | handle h' =>
        have hne : h' ≠ h := fun he => hh (he ▸ rfl)
        simp only [Holds, hcarry, update_of_ne hne]
      | body | libuv => exact Iff.rfl

theorem nextBody_fire (hi : s.LoopInv) {l : Uvloop Req} {les : List (Uvloop.Event Req)}
    (ht : s.threads.loop.turn (.fire h) = some (l, les)) :
    s.nextBody (.fire h) l.position = s.threads.loop.carries h := by
  cases hi.threads.loop.turn_cases ht with
  | fireStop _ _ _ he => simp [nextBody, Uvloop.carries, he]
  | fire _ _ _ hs he => simp [nextBody, Uvloop.carries, hs, he]

theorem nextBody_of_ne {b : Uvloop.Turn} {p : Position} (hne : ∀ h, b ≠ .fire h) :
    s.nextBody b p = s.body := by
  cases b with
  | fire h => exact (hne h rfl).elim
  | _ => rfl

theorem LoopInv.holds_fire (hi : s.LoopInv) {th : Uvloop.Threads Req}
    {les : List (Uvloop.Event Req)} (ht : s.threads.step (.turn (.fire h)) = some (th, les)) :
    Handover s.Holds (.handle h) (some .body)
      (Holds { s with threads := th, body := s.nextBody (.fire h) th.loop.position }) := by
  obtain ⟨hcall, hturn⟩ := Uvloop.Threads.turn_cases ht
  have hcarry := hi.threads.loop.turn_carries hturn
  refine ⟨fun x => by simp [Holds, hcarry], ?_, fun o hh hbo x => ?_⟩
  · rintro _ ⟨⟩ x
    simp only [Holds, nextBody_fire hi hturn]
  · cases o with
    | caller u => exact holds_caller_congr rfl (by simp [hcall])
    | handle h' =>
      have hne : h ≠ h' := fun he => hh (he ▸ rfl)
      simp [Holds, hcarry, hne]
    | body => exact (hbo rfl).elim
    | libuv => exact Iff.rfl

theorem LoopInv.holds_turn (hi : s.LoopInv) {b : Uvloop.Turn} {th : Uvloop.Threads Req}
    {les : List (Uvloop.Event Req)} (ht : s.threads.step (.turn b) = some (th, les))
    (hne : ∀ h, b ≠ .fire h) (o : Holder) (x : ℕ) :
    Holds { s with threads := th, body := s.nextBody b th.loop.position } o x ↔
      s.Holds o x := by
  obtain ⟨hcall, hturn⟩ := Uvloop.Threads.turn_cases ht
  have hcarry := hi.threads.loop.turn_carries hturn
  cases o with
  | caller u => exact holds_caller_congr rfl (by simp [hcall])
  | handle h => simp [Holds, hcarry, hne]
  | body => simp only [Holds, nextBody_of_ne hne]
  | libuv => exact Iff.rfl

theorem ClosedCases.holds {x : ℕ} (hc : ClosedCases s x s' es) (hi : s.LoopInv) (o : Holder)
    (y : ℕ) : s'.Holds o y ↔ s.Holds o y := by
  rcases hc.apart with ⟨hap, -⟩ | ⟨loop, les, s₁, hap, hsub, rfl, rfl⟩
  · exact hap.holds
  · rw [← hap.holds]
    cases o with
    | caller u => exact holds_caller_congr rfl (by rw [hap.threads])
    | body | libuv => exact Iff.rfl
    | handle h =>
      simp only [Holds, hap.threads]
      rcases Uvloop.submit_cases s.threads.loop (.addReq .tcpConnect (some .connect)) with
        ⟨-, he⟩ | ⟨h', l', htake, he⟩
      · rw [(Prod.mk.inj (hsub.symm.trans he)).1]
      · obtain ⟨hnone, hcarry⟩ := hi.threads.loop.carries_of_take htake
        rw [(Prod.mk.inj (hsub.symm.trans he)).1, hcarry]
        rcases eq_or_ne h h' with rfl | hh
        · simp [hnone, Uvloop.Fill.callback]
        · simp [hh]

/-! ## Every step is a move -/

theorem isRecord_loop (les : List (Uvloop.Event Req)) :
    ∀ e ∈ les.map Event.loop, e.isRecord = false := by
  simp [Event.isRecord]

theorem isRecord_append {fs : List Event} (h : ∀ e ∈ es, e.isRecord = false)
    (h' : ∀ e ∈ fs, e.isRecord = false) : ∀ e ∈ es ++ fs, e.isRecord = false := by
  intro e he
  exact (List.mem_append.mp he).elim (h e) (h' e)

theorem lockResult_isRecord (s : Uvconnect) (t : ℕ) :
    ∀ e ∈ s.lockResult t, e.isRecord = false := by
  unfold lockResult
  split <;> simp [Event.isRecord]

theorem kept_of_fields (hd : s'.dSend = s.dSend) (hm : s'.mapSend = s.mapSend)
    (hc : s'.created = s.created) (hw : s'.writing = s.writing) (hs : s'.send = s.send) :
    Kept s s' := ⟨hd, hm, hc, hw, fun r => by rw [hs]⟩

theorem LoopInv.move_loop (hi : s.LoopInv) {b : Uvloop.Act Req} {th : Uvloop.Threads Req}
    {les : List (Uvloop.Event Req)} (hl : LoopAct s a b) (ht : s.threads.step b = some (th, les)) :
    RecordMove w s a { s with threads := th } (les.map .loop) :=
  .keep _ _ _ (kept_of_fields rfl rfl rfl rfl rfl) (.of_eq rfl)
    (fun o x => (hi.holds_loop hl ht o x).mp) (isRecord_loop les)

theorem LoopInv.move_addReq (hi : s.LoopInv) {th : Uvloop.Threads Req}
    {les : List (Uvloop.Event Req)} (hc : s.call t = .requesting req)
    (ht : s.threads.step (.call t (.addReq req.eType (some req))) = some (th, les)) :
    RecordMove w s (.addReq t) { s with threads := th, call := update s.call t .idle }
      (les.map .loop ++ if s.threads.loop.bRunning then [] else [.returned t req .stop]) := by
  refine .keep _ _ _ (kept_of_fields rfl rfl rfl rfl rfl)
    (.of_update (t := t) (c := .idle) rfl (by simp [hc]) nofun nofun)
    (fun o x ho => ?_) (isRecord_append (isRecord_loop les) ?_)
  · rcases hi.holds_addReq hc ht with ⟨-, hsame⟩ | ⟨-, hgone⟩
    · exact (hsame o x).mp ho
    · rcases hgone.cases ho with ⟨hk, -⟩ | ⟨-, hx⟩
      · cases hk
      · exact hx
  · split <;> simp [Event.isRecord]

theorem LoopInv.move_lock (hi : s.LoopInv) {th : Uvloop.Threads Req}
    {les : List (Uvloop.Event Req)} (ht : s.threads.step (.lock t) = some (th, les)) :
    RecordMove w s (.lock t) { s with threads := th } (les.map .loop ++ s.lockResult t) := by
  have hes := isRecord_append (isRecord_loop les) (lockResult_isRecord s t)
  rcases hi.holds_lock ht with ⟨-, hgone⟩ | ⟨h, -, -, hgiven⟩
  · refine .keep _ _ _ (kept_of_fields rfl rfl rfl rfl rfl) (.of_eq rfl) (fun o x ho => ?_) hes
    rcases hgone.cases ho with ⟨hk, -⟩ | ⟨-, hx⟩
    · cases hk
    · exact hx
  · by_cases hw : ∃ r, s.Holds (.caller t) r
    · obtain ⟨r, hr⟩ := hw
      refine .give _ _ _ (.caller t) (.handle h) r (kept_of_fields rfl rfl rfl rfl rfl)
        (.of_eq rfl) hr ?_ nofun (fun o x ho => ?_) hes
      · rintro _ p ⟨⟩ hp
        obtain ⟨fill, hfill, -⟩ := Uvloop.Threads.lock_cases ht
        have hidle : s.call t = .idle := (hi.single t).resolve_right (by simp [hfill])
        cases hidle.symm.trans hp
      · rcases hgiven.cases ho with ⟨hk, hx⟩ | ⟨hne, hx⟩
        · exact .inl ⟨(Option.some.inj hk).symm, hi.holds_unique (by simp) hr hx⟩
        · exact .inr ⟨hx, fun he => hne he.1⟩
    · refine .keep _ _ _ (kept_of_fields rfl rfl rfl rfl rfl) (.of_eq rfl) (fun o x ho => ?_) hes
      rcases hgiven.cases ho with ⟨-, hx⟩ | ⟨-, hx⟩
      · exact (hw ⟨x, hx⟩).elim
      · exact hx

theorem nextBody_cases {b : Uvloop.Turn} {p : Position} (h : s.nextBody b p = some req) :
    (∃ x y, b = .fire x ∧ p = .running y ∧ (s.threads.loop.async x).tcb = some req) ∨
      (∀ x, b ≠ .fire x) ∧ s.body = some req := by
  cases b with
  | fire x =>
    cases p with
    | running y => exact .inl ⟨x, y, rfl, rfl, h⟩
    | down | polling | ran | left | aborted => cases h
  | tcbReturn | recycle | skip | newPass | leave | clearRunning => exact .inr ⟨nofun, h⟩

theorem LoopInv.move_turn (hi : s.LoopInv) {b : Uvloop.Turn} {th : Uvloop.Threads Req}
    {les : List (Uvloop.Event Req)} (ht : s.threads.step (.turn b) = some (th, les)) :
    RecordMove w s (.turn b) { s with threads := th, body := s.nextBody b th.loop.position }
      (les.map .loop) := by
  by_cases hb : ∃ h, b = .fire h
  · obtain ⟨h, rfl⟩ := hb
    have hentered := hi.holds_fire ht
    by_cases hw : ∃ r, s.Holds (.handle h) r
    · obtain ⟨r, hr⟩ := hw
      refine .give _ _ _ (.handle h) .body r (kept_of_fields rfl rfl rfl rfl rfl) (.of_eq rfl) hr
        nofun nofun (fun o x ho => ?_) (isRecord_loop les)
      rcases hentered.cases ho with ⟨hk, hx⟩ | ⟨hne, hx⟩
      · exact .inl ⟨(Option.some.inj hk).symm, hi.holds_unique (by simp) hr hx⟩
      · exact .inr ⟨hx, fun he => hne he.1⟩
    · refine .keep _ _ _ (kept_of_fields rfl rfl rfl rfl rfl) (.of_eq rfl) (fun o x ho => ?_)
        (isRecord_loop les)
      rcases hentered.cases ho with ⟨-, hx⟩ | ⟨-, hx⟩
      · exact (hw ⟨x, hx⟩).elim
      · exact hx
  · have hne : ∀ h, b ≠ .fire h := fun h he => hb ⟨h, he⟩
    exact .keep _ _ _ (kept_of_fields rfl rfl rfl rfl rfl) (.of_eq rfl)
      (fun o x => (hi.holds_turn ht hne o x).mp) (isRecord_loop les)

theorem ClosedCases.threads {x : ℕ} (hc : ClosedCases s x s' es) :
    s'.call = s.call ∧ s'.body = s.body ∧ (s.bReconect = false → s'.threads = s.threads) := by
  cases hc with
  | submitted _ _ hr => exact ⟨rfl, rfl, fun hn => absurd (hn.symm.trans hr) Bool.false_ne_true⟩
  | _ => exact ⟨rfl, rfl, fun _ => rfl⟩

/-- The loop thread is in the callback of the request that it is to execute. -/
def Entered (s : Uvconnect) : Prop := s.body.isSome → ∃ h, s.threads.loop.position = .running h

theorem Entered.body_eq_none (hi : s.Entered) (hp : ∀ h, s.threads.loop.position ≠ .running h) :
    s.body = none := by
  cases hb : s.body with
  | none => rfl
  | some req =>
    obtain ⟨x, hx⟩ := hi (by simp [hb])
    exact (hp x hx).elim

theorem Entered.of_body (hb : s.body = none) : s.Entered := fun h => by simp [hb] at h

theorem Entered.of_eq (hi : s.Entered) (hb : s'.body = s.body) (ht : s'.threads = s.threads) :
    s'.Entered := by
  intro h
  rw [ht]
  exact hi (hb ▸ h)

theorem Entered.turn_eq_fire (hi : s.Entered) {b : Uvloop.Turn} {th : Uvloop.Threads Req}
    {les : List (Uvloop.Event Req)} (ht : s.threads.step (.turn b) = some (th, les))
    (hret : b = .tcbReturn → s.body = none) : s.body = none ∨ ∃ x, b = .fire x := by
  by_contra hne
  obtain ⟨hbody, -⟩ := not_or.mp hne
  obtain ⟨y, hy⟩ := hi (Option.isSome_iff_ne_none.mpr hbody)
  obtain ⟨-, hturn⟩ := Uvloop.Threads.turn_cases ht
  exact hbody (hret (Uvloop.turn_of_running hturn hy))

theorem Entered.step (hi : s.Entered) (hs : s.step w a = some (s', es)) : s'.Entered := by
  have hquiet : ∀ {b : Uvloop.Act Req} {th les}, s.threads.step b = some (th, les) →
      (∀ c, b ≠ .turn c) → s.body.isSome → ∃ h, th.loop.position = .running h := by
    intro b th les ht hb hne
    obtain ⟨x, hx⟩ := hi hne
    exact ⟨x, Uvloop.Threads.running_kept ht hb hx⟩
  cases step_cases hs with
  | registerConnect | registerloopAndStream | setEventHandler | setIPAndAddr | rejected
  | requestRejected | obtainFault | fillFault | addReqFault | checked | filled =>
    exact hi.of_eq rfl rfl
  | obtained t ma buf r s₁ hc ht =>
    obtain ⟨hth, -, hb, -⟩ := takeSend_threads ht
    exact hi.of_eq hb hth
  | requesting t f s₁ req hidle hb =>
    obtain ⟨hap, -⟩ := begin_cases hb
    exact hi.of_eq hap.body hap.threads
  | loop a b th les hb ht => exact hquiet ht (by cases hb <;> simp)
  | addReq t req th les hc ht => exact hquiet ht (by simp)
  | lock t th les ht => exact hquiet ht (by simp)
  | turn b th les ht hret =>
    rcases hi.turn_eq_fire ht hret with hb | ⟨x, rfl⟩
    · intro h
      obtain ⟨req, hreq⟩ := Option.isSome_iff_exists.mp h
      rcases nextBody_cases hreq with ⟨x, y, -, hp, -⟩ | ⟨-, hbody⟩
      · exact ⟨y, hp⟩
      · cases hb.symm.trans hbody
    · intro h
      obtain ⟨req, hreq⟩ := Option.isSome_iff_exists.mp h
      rcases nextBody_cases hreq with ⟨-, y, -, hp, -⟩ | ⟨hne, -⟩
      · exact ⟨y, hp⟩
      · exact (hne x rfl).elim
  | perform req err =>
    exact .of_body (perform_cases { s with body := none } req err).threads.2.2
  | connectCb h status hp => exact hi.of_eq rfl rfl
  | readCb h nread =>
    have hap := (readDone_cases s nread).apart.1
    exact hi.of_eq hap.body hap.threads
  | writeCb r status =>
    unfold written
    split <;> exact hi.of_eq rfl rfl
  | closeCb h hp =>
    have hb : s.body = none := hi.body_eq_none (by simp [hp])
    exact .of_body ((closed_cases s h).threads.2.1.trans hb)

def writesAccepted (s : Uvconnect) : Act → Prop
  | .perform err => ∀ r, s.body = some (.tcpWrite r) → err = 0
  | _ => True

theorem LoopInv.move_perform {err : ℤ} (hb : s.body = some req)
    (hg : writesAccepted s (.perform err)) :
    RecordMove w s (.perform err) ({ s with body := none }.perform req err).1
      ({ s with body := none }.perform req err).2 := by
  rcases (perform_cases { s with body := none } req err).apart with
    ⟨hap, he⟩ | ⟨r, h, rfl, hc, hst, hwrite⟩
  · refine .keep _ _ _ ⟨hap.dSend, hap.mapSend, hap.created, hap.writing, hap.tsafebuf⟩
      (.of_eq hap.call) (fun o x ho => ?_) he
    have ho' := hap.holds.mp ho
    cases o with
    | body => cases ho'
    | caller | handle | libuv => exact ho'
  · obtain rfl := hg r hb
    obtain ⟨hs', hes⟩ := hwrite rfl
    rw [hs', hes]
    exact .write r h hb hc hst

theorem ClosedCases.move {x : ℕ} (hc : ClosedCases s x s' es) (hi : s.LoopInv) :
    RecordMove w s (.closeCb x) s' es := by
  have hholds : ∀ o y, s'.Holds o y → s.Holds o y := fun o y => (hc.holds hi o y).mp
  rcases hc.apart with ⟨hap, he⟩ | ⟨loop, les, s₁, hap, -, rfl, rfl⟩
  · exact hap.move he
  · exact .keep _ _ _ ⟨hap.dSend, hap.mapSend, hap.created, hap.writing, hap.tsafebuf⟩
      (.of_eq hap.call) hholds (isRecord_loop les)

/-- Every step of the connection is a move. -/
theorem LoopInv.move (hi : s.LoopInv) (hg : writesAccepted s a)
    (hs : s.step w a = some (s', es)) : RecordMove w s a s' es := by
  cases step_cases hs with
  | registerConnect | registerloopAndStream | setEventHandler | setIPAndAddr =>
    refine Apart.move (apart_of_fields rfl rfl rfl rfl rfl rfl rfl rfl) ?_
    simp
  | obtainFault | fillFault | addReqFault | rejected | requestRejected =>
    refine Apart.move (apart_of_fields rfl rfl rfl rfl rfl rfl rfl rfl) ?_
    simp [Event.isRecord]
  | loop a b th les hl ht => exact hi.move_loop hl ht
  | checked t buf hidle =>
    refine .keep _ _ _ (kept_of_fields rfl rfl rfl rfl rfl)
      (.of_update (t := t) (c := .checked buf) rfl (by simp [hidle.1]) nofun (by simp))
      (fun o x ho => ?_) (by simp)
    cases o with
    | caller u =>
      rcases eq_or_ne u t with rfl | hut
      · simp [Holds, hidle.2] at ho
      · exact holds_caller_of_eq ho (update_of_ne hut ..) rfl
    | handle | body | libuv => exact ho
  | obtained t ma buf r s₁ hc ht => exact .obtain t ma buf r s₁ hc ht
  | filled t ma re r buf b ok hc hr => exact .fill t ma re r buf b ok hc hr
  | requesting t f s₁ req hidle hb =>
    obtain ⟨hap, hreq, -⟩ := begin_cases hb
    refine .keep _ _ _ ⟨hap.dSend, hap.mapSend, hap.created, hap.writing, hap.tsafebuf⟩
      (.of_update (t := t) (c := .requesting req) rfl (by simp [hidle.1]) nofun nofun)
      (fun o x ho => ?_) (by simp)
    cases o with
    | caller u =>
      rcases eq_or_ne u t with rfl | hut
      · simp [Holds, hap.threads, hidle.2, hreq] at ho
      · exact holds_caller_of_eq ho (update_of_ne hut ..) (by rw [hap.threads])
    | handle h => simpa [Holds, hap.threads] using ho
    | body => simpa [Holds, hap.body] using ho
    | libuv => simpa [Holds, hap.writing] using ho
  | addReq t req th les hc ht => exact hi.move_addReq hc ht
  | lock t th les ht => exact hi.move_lock ht
  | turn b th les ht _ => exact hi.move_turn ht
  | perform req err hb => exact LoopInv.move_perform hb hg
  | connectCb h status =>
    exact (apart_connected s h status).1.move (apart_connected s h status).2
  | readCb h nread =>
    obtain ⟨hap, he⟩ := (readDone_cases s nread).apart
    exact hap.move he
  | writeCb r status _ hw => exact .complete r status hw
  | closeCb h => exact (closed_cases s h).move hi

end UvWrapper.Uvconnect
