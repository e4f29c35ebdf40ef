import UvWrapper.Connect.Calls
import UvWrapper.Connect.Transfers
import UvWrapper.Util.Copies

/-! # Payloads that were not stored

`wirteData` does not look at what `readmem` returns: whatever has become of the buffer, its
record goes to the loop and from there to `uv_write`, and the caller is told that it was sent.
-/

namespace UvWrapper.Uvconnect

open Function Memory Ownership Transition

variable {w : ℕ} {s s' s₁ : Uvconnect} {a : Act} {es tr : List Event} {t r x : ℕ} {ok : Bool}
  {G : Uvconnect → Act → Prop}

abbrev Copies := ℕ → Option Safebuffer.Copy

variable {g : Copies}

def noteCopy (s : Uvconnect) (a : Act) (_ : List Event) (g : Copies) : Copies :=
  match a with
  | .readmem t ma re =>
    match s.call t with
    | .obtained r buf => update g r (some ⟨(s.send r).tsafebuf, buf, ma, re⟩)
    | .idle | .checked _ | .requesting _ => g
  | _ => g

abbrev copying (w : ℕ) : System (Uvconnect × Copies) Act Event :=
  (connection w).observed (fun _ => none) noteCopy

/-- Success is reported and `uv_write` issued for stored payloads only, and the `uv_buf_t`
covers exactly the payload. -/
structure Honest (w : ℕ) (g : Copies) (es : List Event) : Prop where
  returned : ∀ t r, .returned t (.tcpWrite r) .noErr ∈ es → ∃ c, g r = some c ∧ c.Stored w
  written : ∀ r h st bytes, .uvWrite r h st bytes ∈ es →
    ∃ c, g r = some c ∧ c.Stored w ∧ bytes = c.mem

/-- Where the loop takes the request of a `wirteData`, the copy of its payload was granted all
it needed; where `uv_write` is called, the payload's length is one for `uv_buf_init`. -/
def storable (w : ℕ) (p : Uvconnect × Copies) : Act → Prop
  | .lock t => ∀ e r c, p.1.threads.call t = .locking (.addReq e (some (.tcpWrite r))) →
      p.1.threads.loop.dAsync ≠ [] → p.2 r = some c → c.Granted w
  | .perform _ => ∀ r c, p.1.body = some (.tcpWrite r) → p.1.bConnectSuccess = true →
      p.1.stream ≠ none → p.2 r = some c → c.mem.length < 2 ^ w ∧ c.mem.length < 2 ^ 32
  | _ => True

/-! ## Which steps show what -/

theorem lock_cases (hs : s.step w (.lock t) = some (s', es)) :
    ∃ th les, s.threads.step (.lock t) = some (th, les) ∧ s' = { s with threads := th } ∧
      es = les.map .loop ++ s.lockResult t := by
  cases step_cases hs with
  | lock _ th les ht => exact ⟨th, les, ht, rfl, rfl⟩
  | loop _ _ _ _ hl => cases hl

theorem mem_lockResult {e : EType} {req : Req}
    (hc : s.threads.call t = .locking (.addReq e (some req)))
    (hd : s.threads.loop.dAsync ≠ []) : .returned t req .noErr ∈ s.lockResult t := by
  simp [lockResult, hc, hd]

theorem returned_cases (hs : s.step w a = some (s', es))
    (he : .returned t (.tcpWrite r) .noErr ∈ es) : a = .lock t ∧
      (∃ e, s.threads.call t = .locking (.addReq e (some (.tcpWrite r)))) ∧
      s.threads.loop.dAsync ≠ [] := by
  cases call_cases hs with
  | quiet _ _ _ hq => cases hq _ he
  | rejected | obtained | filled => simp at he
  | addReq _ u req th les ht =>
    have hlast := mem_of_isCall he rfl
    split at hlast <;> simp at hlast
  | lock _ u th les ht =>
    have hlast := mem_of_isCall he rfl
    unfold lockResult at hlast
    split at hlast
    · next e req hc =>
      obtain ⟨rfl, rfl, herr⟩ : t = u ∧ .tcpWrite r = req ∧
          LoopErr.noErr = if s.threads.loop.dAsync = [] then .busy else .noErr := by
        simpa using hlast
      refine ⟨rfl, ⟨e, hc⟩, fun hd => ?_⟩
      rw [if_pos hd] at herr
      cases herr
    · cases hlast

theorem PerformCases.uvWrite {req : Req} {err : ℤ} {h : ℕ} {st : TcpState} {bytes : List UInt8}
    (hp : PerformCases s err req s' es) (he : .uvWrite r h st bytes ∈ es) :
    req = .tcpWrite r ∧ s.bConnectSuccess = true ∧ s.stream ≠ none ∧
      bytes = (s.send r).tsafebuf.covered (sendBuf (s.send r)) := by
  cases hp with
  | write x y hc hst | writeRefused x y hc hst =>
    obtain ⟨rfl, -, -, rfl⟩ : r = x ∧ h = y ∧ st = s.tcp y ∧
        bytes = (s.send x).tsafebuf.covered (sendBuf (s.send x)) := by simpa using he
    exact ⟨rfl, hc, by rw [hst]; exact Option.some_ne_none y, rfl⟩
  | _ => simp [Uvconnect.connect] at he

theorem uvWrite_cases {h : ℕ} {st : TcpState} {bytes : List UInt8}
    (hs : s.step w a = some (s', es)) (he : .uvWrite r h st bytes ∈ es) :
    (∃ err, a = .perform err) ∧ s.body = some (.tcpWrite r) ∧ s.bConnectSuccess = true ∧
      s.stream ≠ none ∧ bytes = (s.send r).tsafebuf.covered (sendBuf (s.send r)) := by
  have hno : (∀ e ∈ es, e.isRecord = false) → False := fun hq => by cases hq _ he
  cases step_cases hs with
  | registerConnect | registerloopAndStream | setEventHandler | setIPAndAddr | rejected
  | checked | obtained | obtainFault | filled | fillFault | requesting | requestRejected
  | addReqFault => simp at he
  | loop a b th les | turn b th les => exact (hno (isRecord_loop les)).elim
  | addReq u req th les =>
    refine (hno (isRecord_append (isRecord_loop les) ?_)).elim
    split <;> simp [Event.isRecord]
  | lock u th les =>
    exact (hno (isRecord_append (isRecord_loop les) (lockResult_isRecord s u))).elim
  | perform req err hb =>
    obtain ⟨rfl, hc⟩ := (perform_cases { s with body := none } req err).uvWrite he
    exact ⟨⟨err, rfl⟩, hb, hc⟩
  | connectCb h status => exact (hno (apart_connected s h status).2).elim
  | readCb h nread => exact (hno (readDone_cases s nread).apart.2).elim
  | writeCb y status => rcases mem_written he with h | h | h <;> cases h
  | closeCb h =>
    rcases (closed_cases s h).apart with ⟨-, hq⟩ | ⟨loop, les, s₁, -, -, -, hes⟩
    · exact (hno hq).elim
    · rw [hes] at he
      simp at he

/-! ## What is in the buffers -/

/-- A record obtained is empty; one that is held otherwise is as its last `readmem` left it. -/
structure StoreInv (w : ℕ) (s : Uvconnect) (g : Copies) : Prop where
  obtained : ∀ t x p, s.call t = .obtained x p → (s.send x).tsafebuf.datalen = 0
  filled : ∀ o x, s.Holds o x → (∃ t p, o = .caller t ∧ s.call t = .obtained x p) ∨
    ∃ c, g x = some c ∧ c.Leaves w (s.send x).tsafebuf

theorem storeInv_create (garbage : ℕ → EType) (send : ℕ → StSend) :
    StoreInv w (create garbage send) fun _ => none where
  obtained _ _ _ := nofun
  filled o x ho := (create_holds garbage send o x ho).elim

theorem noteCopy_of_held (hp : s.PoolInv) {o : Holder} (ho : s.Holds o x)
    (hne : ∀ t p, o = .caller t → s.call t ≠ .obtained x p) : noteCopy s a es g x = g x := by
  cases a with
  | readmem t ma re =>
    cases hc : s.call t with
    | obtained r buf =>
      have hxr : x ≠ r := by
        rintro rfl
        have hcaller : o = .caller t := hp.exclusive _ _ _ ho (.inl ⟨buf, hc⟩)
        exact hne t buf hcaller hc
      simpa only [noteCopy, hc] using update_of_ne hxr ..
    | idle | checked | requesting => simp only [noteCopy, hc]
  | _ => rfl

theorem StoreInv.of_kept (hi : StoreInv w s g) (hp : s.PoolInv)
    (hk : ∀ x, (s'.send x).tsafebuf = (s.send x).tsafebuf) (hc : CallsKept s a s')
    (hsrc : ∀ o x, s'.Holds o x → s.Holds o x ∨
      ∃ i, s.Holds i x ∧ ∀ t p, i = .caller t → s.call t ≠ .obtained x p) :
    StoreInv w s' (noteCopy s a es g) := by
  have hcopied : ∀ i x, s.Holds i x → (∀ t p, i = .caller t → s.call t ≠ .obtained x p) →
      ∃ c, noteCopy s a es g x = some c ∧ c.Leaves w (s'.send x).tsafebuf := by
    intro i x h hne
    rw [noteCopy_of_held hp h hne, hk]
    exact (hi.filled i x h).resolve_left fun ⟨t, p, ho, ht⟩ => hne t p ho ht
  constructor
  case obtained =>
    intro t x p ht
    rw [hk]
    exact hi.obtained t x p ((hc.obtained t x p).mpr ht)
  case filled =>
    intro o x ho
    rcases hsrc o x ho with h | ⟨i, h, hne⟩
    · by_cases hob : ∃ t p, o = .caller t ∧ s.call t = .obtained x p
      · obtain ⟨t, p, ho', ht⟩ := hob
        exact .inl ⟨t, p, ho', (hc.obtained t x p).mp ht⟩
      · exact .inr (hcopied o x h fun t p ho' ht => hob ⟨t, p, ho', ht⟩)
    · exact .inr (hcopied i x h hne)

theorem takeSend_send {ma : Answer} (h : s.takeSend ma = some (r, s₁)) :
    (s₁.send r).tsafebuf.datalen = 0 ∧ ∀ x, x ≠ r → s₁.send x = s.send x := by
  rcases takeSend_cases h with ⟨b, -, hb, rfl, rfl⟩ | ⟨rest, -, rfl⟩
  · obtain ⟨blk, -, rfl⟩ := Option.map_eq_some_iff.mp hb
    exact ⟨by simp, fun x hx => update_of_ne hx ..⟩
  · exact ⟨by simp [Safebuffer.clearMem], fun x hx => update_of_ne hx ..⟩

theorem StoreInv.obtain (hi : StoreInv w s g) (hl : s.LoopInv) (hp : s.PoolInv) {ma : Answer}
    {buf : List UInt8} (hc : s.call t = .checked buf) (h : s.takeSend ma = some (r, s₁)) :
    StoreInv w { s₁ with call := update s.call t (.obtained r buf) } g := by
  have hno : ∀ o, ¬ s.Holds o r := fun o ho => (hp.unused h).1 (hp.held o r ho)
  obtain ⟨hempty, hothers⟩ := takeSend_send h
  constructor
  case obtained =>
    intro u x p hu
    rcases eq_or_ne u t with rfl | hut
    · obtain ⟨rfl, -⟩ : r = x ∧ buf = p := by simpa using hu
      exact hempty
    · have hu' : s.call u = .obtained x p := by simpa [hut] using hu
      have hxr : x ≠ r := fun he => hno (.caller u) (.inl ⟨p, he ▸ hu'⟩)
      simpa only [hothers x hxr] using hi.obtained u x p hu'
  case filled =>
    intro o x ho
    rcases holds_of_obtain (hl.idle_of_call (by rw [hc]; nofun)) h ho with ⟨rfl, rfl⟩ | ho'
    · exact .inl ⟨t, buf, rfl, update_self ..⟩
    · have hxr : x ≠ r := fun he => hno o (he ▸ ho')
      rcases hi.filled o x ho' with ⟨u, p, hou, hu⟩ | hfill
      · have hut : u ≠ t := fun he => by cases hc.symm.trans (he ▸ hu)
        exact .inl ⟨u, p, hou, (update_of_ne hut ..).trans hu⟩
      · exact .inr (by simpa only [hothers x hxr] using hfill)

theorem StoreInv.fill (hi : StoreInv w s g) (hp : s.PoolInv) {ma re : Answer}
    {buf : List UInt8} {b : Safebuffer} (hc : s.call t = .obtained r buf)
    (h : (s.send r).tsafebuf.readmem w buf ma re = some (b, ok)) :
    StoreInv w { s with
      send := update s.send r { s.send r with tsafebuf := b }
      call := update s.call t (.requesting (.tcpWrite r)) }
      (update g r (some ⟨(s.send r).tsafebuf, buf, ma, re⟩)) := by
  have hheld : s.Holds (.caller t) r := .inl ⟨buf, hc⟩
  constructor
  case obtained =>
    intro u x p hu
    obtain ⟨hut, hu'⟩ := Update.of_update (by simp) hu
    have hxr : x ≠ r := by
      rintro rfl
      exact hut (Holder.caller.inj (hp.exclusive _ _ _ (.inl ⟨p, hu'⟩) hheld))
    simpa [hxr] using hi.obtained u x p hu'
  case filled =>
    intro o x ho
    rcases eq_or_ne x r with rfl | hxr
    · refine .inr ⟨_, update_self .., hi.obtained t x buf hc, ok, ?_⟩
      simpa [Safebuffer.Copy.result] using h
    · rcases hi.filled o x (holds_of_fill hc ho) with ⟨u, p, hou, hu⟩ | hfill
      · have hut : u ≠ t := by
          rintro rfl
          exact hxr (Writer.obtained.inj (hu.symm.trans hc)).1
        exact .inl ⟨u, p, hou, (update_of_ne hut ..).trans hu⟩
      · exact .inr (by simpa [hxr] using hfill)

theorem holds_of_written {o : Holder} {status : ℤ} (ho : (s.written r status).1.Holds o x) :
    s.Holds o x := by
  unfold written at ho
  split at ho
  · cases o with
    | caller | handle | body => exact ho
    | libuv =>
      rcases eq_or_ne x r with rfl | hxr
      · simp [Holds] at ho
      · simpa [Holds, hxr] using ho
  · cases o <;> exact ho

theorem written_send (s : Uvconnect) (r : ℕ) (status : ℤ) :
    (s.written r status).1.send = s.send := by
  unfold written
  split <;> rfl

theorem StoreInv.step (hi : StoreInv w s g) (ha : s.Accounted) (hg : dutiful s a)
    (hs : s.step w a = some (s', es)) : StoreInv w s' (noteCopy s a es g) := by
  cases ha.loop.move hg.2 hs with
  | keep a s' es hk hc hsub =>
    exact hi.of_kept ha.pool hk.tsafebuf hc fun o x ho => .inl (hsub o x ho)
  | give a s' es i j r hk hc hir hne _ hsub =>
    refine hi.of_kept ha.pool hk.tsafebuf hc fun o x ho => ?_
    rcases hsub o x ho with ⟨-, rfl⟩ | ⟨ho, -⟩
    · exact .inr ⟨i, hir, hne⟩
    · exact .inl ho
  | obtain t ma buf r s₁ hc ht => exact hi.obtain ha.loop ha.pool hc ht
  | fill t ma re r buf b ok hc hr => simpa only [noteCopy, hc] using hi.fill ha.pool hc hr
  | write r h hb =>
    refine hi.of_kept (a := .perform 0) ha.pool (fun x => ?_) (.of_eq rfl) fun o x ho => ?_
    · exact Update.apply_update_of_eq (g := StSend.tsafebuf) rfl
    · rcases holds_of_write ho with ⟨-, rfl⟩ | ⟨ho, -⟩
      · exact .inr ⟨.body, hb, by simp⟩
      · exact .inl ho
  | complete r status hw =>
    exact hi.of_kept (a := .writeCb r status) ha.pool (fun x => by rw [written_send])
      (.of_eq (written_call s r status)) fun o x ho => .inl (holds_of_written ho)

theorem storeInv_of_reach {p : Uvconnect × Copies}
    (h : (copying w).Reach (fun p => dutiful p.1) tr p) : StoreInv w p.1 p.2 := by
  apply h.stateInvariant (I := fun p => StoreInv w p.1 p.2)
  · rintro ⟨s, g⟩ ⟨⟨garbage, send, hs⟩, hg⟩
    obtain rfl : s = create garbage send := hs
    obtain rfl : g = fun _ => none := hg
    exact storeInv_create garbage send
  · intro tr p a p' es hr hi hg hs
    obtain ⟨hs', hn⟩ := System.observed_step.mp hs
    exact hn ▸ hi.step (accounted_of_reach (fun _ _ h => h) (hr.forget fun _ _ h => h)) hg hs'

/-! ## Where `uv_write` fails -/

theorem crashed_of_step (hs : s.step w a = some (s', es)) : s.crashed = false := by
  unfold step at hs
  split at hs
  · cases hs
  · next hn => exact Bool.eq_false_iff.mpr hn

theorem step_of_refused (hw : ¬ writesAccepted s a) (hs : s.step w a = some (s', es)) :
    s'.crashed = true ∨ (s' = { s with body := none } ∧ es = [] ∧
      s.step w (.perform 0) = some (s', es)) := by
  have hn := crashed_of_step hs
  cases a with
  | perform err =>
    obtain ⟨r, hb, hne⟩ : ∃ r, s.body = some (.tcpWrite r) ∧ err ≠ 0 := by
      simpa [writesAccepted] using hw
    have hp : some ({ s with body := none }.tcpWrite r err) = some (s', es) := by
      simpa [step, hn, hb, perform] using hs
    have hp₀ : s.step w (.perform 0) = some ({ s with body := none }.tcpWrite r 0) := by
      simp [step, hn, hb, perform]
    unfold tcpWrite at hp hp₀
    dsimp only at hp hp₀
    split at hp
    · next hc =>
      obtain ⟨rfl, rfl⟩ := Prod.mk.inj (Option.some.inj hp)
      rw [if_pos hc] at hp₀
      exact .inr ⟨rfl, rfl, hp₀⟩
    · left
      split at hp
      · obtain ⟨rfl, -⟩ := Prod.mk.inj (Option.some.inj hp)
        rfl
      · obtain ⟨rfl, -⟩ := Prod.mk.inj (Option.some.inj hp)
        rfl
  | _ => exact (hw trivial).elim

/-- Until the program ends `uv_write` may as well not have failed. -/
theorem dutiful_of_reach {p : Uvconnect × Copies}
    (h : (copying w).Reach (fun p => typed p.1) tr p) :
    p.1.crashed = true ∨ (copying w).Reach (fun p => dutiful p.1) tr p := by
  apply h.invariant
    (I := fun tr p => p.1.crashed = true ∨ (copying w).Reach (fun p => dutiful p.1) tr p)
  · exact fun p hp => .inr (.start hp)
  · rintro tr p a ⟨s', g'⟩ es - hr hg hs
    obtain ⟨hs', hn⟩ := System.observed_step.mp hs
    rcases hr with hc | hr
    · cases hc.symm.trans (crashed_of_step hs')
    · by_cases hw : writesAccepted p.1 a
      · exact .inr (hr.step ⟨hg, hw⟩ hs)
      · apply (step_of_refused hw hs').imp_right
        rintro ⟨-, -, hs₀⟩
        have hsame : noteCopy p.1 a es p.2 = noteCopy p.1 (.perform 0) es p.2 := by
          cases a with
          | perform err => rfl
          | _ => exact (hw trivial).elim
        exact hr.step (a := .perform 0) ⟨trivial, fun _ _ => rfl⟩
          (System.observed_step.mpr ⟨hs₀, hn.trans hsame⟩)

theorem before_of_reach {p : Uvconnect × Copies}
    (h : (copying w).Reach (fun p a => typed p.1 a ∧ G p.1 a) tr p)
    (hn : p.1.crashed = false) : p.1.Accounted ∧ StoreInv w p.1 p.2 := by
  have hr := (dutiful_of_reach (h.mono fun _ _ h => h.1)).resolve_left (by simp [hn])
  exact ⟨accounted_of_reach (fun _ _ h => h) (hr.forget fun _ _ h => h), storeInv_of_reach hr⟩

/-! ## What the loop and libuv get -/

/-- The copies into the records that callers have handed on were granted all they needed. -/
def Queued (w : ℕ) (s : Uvconnect) (g : Copies) : Prop :=
  ∀ o x c, s.Holds o x → (∀ t, o ≠ .caller t) → g x = some c → c.Granted w

theorem StoreInv.of_locking (hi : StoreInv w s g) (hl : s.LoopInv) {e : EType}
    (hc : s.threads.call t = .locking (.addReq e (some (.tcpWrite r)))) :
    ∃ c, g r = some c ∧ c.Leaves w (s.send r).tsafebuf := by
  apply (hi.filled (.caller t) r (.inr (.inr ⟨e, hc⟩))).resolve_left
  rintro ⟨u, p, hu, hob⟩
  obtain rfl := Holder.caller.inj hu
  have hidle := hl.idle_of_call (t := t) (by rw [hob]; nofun)
  cases hidle.symm.trans hc

theorem Queued.step (hq : Queued w s g) (ha : s.Accounted) (hg : dutiful s a)
    (hc : storable w (s, g) a) (hs : s.step w a = some (s', es)) :
    Queued w s' (noteCopy s a es g) := by
  have hkeep : ∀ o x c, s.Holds o x → (∀ t, o ≠ .caller t) →
      noteCopy s a es g x = some c → c.Granted w := by
    intro o x c ho hne hx
    rw [noteCopy_of_held ha.pool ho fun t _ he => (hne t he).elim] at hx
    exact hq o x c ho hne hx
  have hgone : ∀ r, Reassigned s.Holds r none s'.Holds → Queued w s' (noteCopy s a es g) := by
    intro r hr o x c ho hne
    rcases eq_or_ne x r with rfl | hxr
    · cases (hr.owner o).mp ho
    · exact hkeep o x c ((hr.others o x hxr).mp ho) hne
  cases ha.move hg hs with
  | same _ hiff => exact fun o x c ho => hkeep o x c ((hiff o x).mp ho)
  | obtain t r _ _ hr =>
    intro o x c ho hne
    rcases eq_or_ne x r with rfl | hxr
    · exact (hne t (Option.some.inj ((hr.owner o).mp ho)).symm).elim
    · exact hkeep o x c ((hr.others o x hxr).mp ho) hne
  | accept t h r _ hh hr _ htally =>
    have he : .returned t (.tcpWrite r) .noErr ∈ es :=
      List.mem_of_mem_filter (htally ▸ List.mem_singleton_self _)
    obtain ⟨rfl, ⟨e, hlock⟩, hd⟩ := returned_cases hs he
    intro o x c ho hne
    rcases eq_or_ne x r with rfl | hxr
    · exact hc e x c hlock hd
    · exact hkeep o x c ((hr.others o x hxr).mp ho) hne
  | pass i j r _ hh hi' _ hr =>
    intro o x c ho hne
    rcases eq_or_ne x r with rfl | hxr
    · exact hkeep i x c hh hi'
    · exact hkeep o x c ((hr.others o x hxr).mp ho) hne
  | refuse t r _ _ _ hr => exact hgone r hr
  | giveUp r err _ _ _ hr => exact hgone r hr
  | complete r status _ _ hr => exact hgone r hr

theorem queued_of_reach {p : Uvconnect × Copies}
    (h : (copying w).Reach (fun p a => typed p.1 a ∧ G p.1 a) tr p)
    (hc : (copying w).Always (fun p a => typed p.1 a ∧ G p.1 a) (storable w)) :
    p.1.crashed = true ∨ Queued w p.1 p.2 := by
  apply h.invariant (I := fun _ p => p.1.crashed = true ∨ Queued w p.1 p.2)
  · rintro ⟨s, g⟩ ⟨⟨garbage, send, hs⟩, -⟩
    obtain rfl : s = create garbage send := hs
    exact .inr fun o x c ho => (create_holds garbage send o x ho).elim
  · rintro tr ⟨s, g⟩ a ⟨s', g'⟩ es hr hq hg hs
    obtain ⟨hs', hn⟩ := System.observed_step.mp hs
    obtain rfl : g' = noteCopy s a es g := hn
    have hrun : s.crashed = false := crashed_of_step hs'
    have ha : s.Accounted := (before_of_reach hr hrun).1
    have hq' : Queued w s g := hq.resolve_left (by simp [hrun])
    by_cases hw : writesAccepted s a
    · exact .inr (hq'.step ha ⟨hg.1, hw⟩ (hc tr _ a _ es hr hg hs) hs')
    · rcases step_of_refused hw hs' with hcr | ⟨hsame, -, -⟩
      · exact .inl hcr
      · obtain rfl : s' = { s with body := none } := hsame
        right
        intro o x c ho hne hx
        have ho' : s.Holds o x := by
          cases o with
          | body => cases ho
          | caller | handle | libuv => exact ho
        have hsame : noteCopy s a es g x = g x :=
          noteCopy_of_held ha.pool ho' fun t _ he => (hne t he).elim
        exact hq' o x c ho' hne (hsame.symm.trans hx)

/-- No `wirteData` reports success for a payload that it has not stored, none such is written,
and what is written is the payload. -/
def SendsHonest (w : ℕ) (G : Uvconnect → Act → Prop) : Prop :=
  ∀ tr p a p' es, (copying w).Reach (fun p a => typed p.1 a ∧ G p.1 a) tr p →
    typed p.1 a ∧ G p.1 a → (copying w).step p a = some (p', es) → Honest w p.2 es

theorem uvWrite_of_perform {err : ℤ} (hs : s.step w (.perform err) = some (s', es))
    (hb : s.body = some (.tcpWrite r)) (hc : s.bConnectSuccess = true) (hst : s.stream ≠ none) :
    ∃ h, .uvWrite r h (s.tcp h) ((s.send r).tsafebuf.covered (sendBuf (s.send r))) ∈ es := by
  obtain ⟨h, hh⟩ := Option.ne_none_iff_exists'.mp hst
  have hn := crashed_of_step hs
  refine ⟨h, ?_⟩
  have hp : some ({ s with body := none }.tcpWrite r err) = some (s', es) := by
    simpa [step, hn, hb, perform] using hs
  rw [tcpWrite, if_neg (by simp [hc])] at hp
  simp only [hh] at hp
  split at hp
  · obtain ⟨-, rfl⟩ := Prod.mk.inj (Option.some.inj hp)
    exact List.mem_cons_self
  · obtain ⟨-, rfl⟩ := Prod.mk.inj (Option.some.inj hp)
    exact List.mem_cons_self

/-- `wirteData` is honest in exactly the runs in which the copies of the payloads that the loop
takes were granted all they needed, and the lengths of those written fit. -/
theorem sendsHonest_iff (w : ℕ) (G : Uvconnect → Act → Prop) : SendsHonest w G ↔
    (copying w).Always (fun p a => typed p.1 a ∧ G p.1 a) (storable w) := by
  constructor
  · rintro h tr ⟨s, g⟩ a ⟨s', g'⟩ es hr hg hs
    have hs' : s.step w a = some (s', es) := (System.observed_step.mp hs).1
    obtain ⟨ha, hi⟩ := before_of_reach hr (crashed_of_step hs')
    have hh := h tr _ a _ es hr hg hs
    cases a with
    | lock t =>
      intro e r c hc hd hgr
      obtain ⟨d, hd', hl⟩ := hi.of_locking ha.loop hc
      obtain rfl := Option.some.inj (hd'.symm.trans hgr)
      have he : .returned t (.tcpWrite r) .noErr ∈ es := by
        obtain ⟨th, les, -, -, rfl⟩ := lock_cases hs'
        apply List.mem_append_right
        exact mem_lockResult hc hd
      obtain ⟨d, hd', hst⟩ := hh.returned t r he
      obtain rfl := Option.some.inj (hd'.symm.trans hgr)
      exact hl.stored_iff.mp hst
    | perform err =>
      intro r c hb hc hst hgr
      obtain ⟨x, he⟩ := uvWrite_of_perform hs' hb hc hst
      obtain ⟨d, hd, hst', hbytes⟩ := hh.written r x _ _ he
      obtain rfl := Option.some.inj (hd.symm.trans hgr)
      rcases hi.filled .body r hb with ⟨u, p, hu, -⟩ | ⟨d', hd', hl⟩
      · cases hu
      · obtain rfl := Option.some.inj (hd'.symm.trans hgr)
        exact (hl.covered_iff hst').mp hbytes
    | _ => trivial
  · rintro h tr ⟨s, g⟩ a ⟨s', g'⟩ es hr hg hs
    have hs' : s.step w a = some (s', es) := (System.observed_step.mp hs).1
    have hn : s.crashed = false := crashed_of_step hs'
    obtain ⟨ha, hi⟩ := before_of_reach hr hn
    have hc := h tr _ a _ es hr hg hs
    constructor
    · intro t r he
      obtain ⟨rfl, ⟨e, hlock⟩, hd⟩ := returned_cases hs' he
      obtain ⟨c, hgr, hl⟩ := hi.of_locking ha.loop hlock
      exact ⟨c, hgr, hl.stored_iff.mpr (hc e r c hlock hd hgr)⟩
    · intro r x st bytes he
      obtain ⟨⟨err, rfl⟩, hb, hup, hst, rfl⟩ := uvWrite_cases hs' he
      have hq : Queued w s g := (queued_of_reach hr h).resolve_left (by simp [hn])
      rcases hi.filled .body r hb with ⟨u, p, hu, -⟩ | ⟨c, hgr, hl⟩
      · cases hu
      · have hstored : c.Stored w := hl.stored_iff.mpr (hq .body r c hb (by simp) hgr)
        exact ⟨c, hgr, hstored, (hl.covered_iff hstored).mpr (hc r c hb hup hst hgr)⟩

theorem not_sendsHonest : ¬ SendsHonest 32 (anyStep _ _) := by
  obtain ⟨p, hlen⟩ : ∃ p : List UInt8, p.length = 1024 :=
    ⟨List.replicate 1024 0, List.length_replicate⟩
  let good : Answer := ⟨true, 1, fun _ => 0⟩
  let bad : Answer := ⟨false, 0, fun _ => 0⟩
  obtain ⟨b, hb⟩ : ∃ b, Safebuffer.create good = some b := ⟨_, rfl⟩
  have hgrows : b.Grows 32 p.length := by
    obtain rfl := Option.some.inj hb
    rw [hlen]
    exact ⟨Option.some_ne_none _, by decide, by decide⟩
  let s₁ : Uvconnect := { accepted with call := update accepted.call 1 (.checked p) }
  let s₂ : Uvconnect := { s₁ with
    send := update s₁.send 0 { s₁.send 0 with tsafebuf := b }
    created := 1
    mapSend := insert 0 ∅
    call := update s₁.call 1 (.obtained 0 p) }
  let s₃ : Uvconnect := { s₂ with
    send := update s₂.send 0 { s₂.send 0 with tsafebuf := b.lost }
    call := update s₂.call 1 (.requesting (.tcpWrite 0)) }
  let g₃ (g : Copies) : Copies := update g 0 (some ⟨b, p, good, bad⟩)
  have h₀ : (connection 32).Reach (fun s a => typed s a ∧ anyStep _ _ s a) [] accepted :=
    reach_accepted.mono fun s a h => ⟨h.typed, trivial⟩
  have h₁ : (connection 32).Reach (fun s a => typed s a ∧ anyStep _ _ s a) [] s₁ :=
    h₀.step (a := Act.wirteData 1 p) ⟨trivial, trivial⟩
      (if_pos ⟨⟨rfl, rfl⟩, by rw [hlen]; decide⟩)
  have ho : s₁.step 32 (.takeSend 1 good) = some (s₂, [.obtained 1 0 p]) :=
    step_takeSend hb rfl rfl rfl
  have h₂ := h₁.step (a := Act.takeSend 1 good) ⟨trivial, trivial⟩ ho
  have hr : (s₂.send 0).tsafebuf.readmem 32 p good bad = some (b.lost, false) :=
    Safebuffer.readmem_of_failure hgrows rfl
  have hf : s₂.step 32 (.readmem 1 good bad) = some (s₃, [.filled 1 0 false]) :=
    step_readmem hr rfl rfl
  obtain ⟨g, h₂⟩ : ∃ g, (copying 32).Reach (fun p a => typed p.1 a ∧ anyStep _ _ p.1 a)
      [.obtained 1 0 p] (s₂, g) := h₂.observe
  have h₃ : (copying 32).Reach (fun p a => typed p.1 a ∧ anyStep _ _ p.1 a)
      [.obtained 1 0 p, .filled 1 0 false] (s₃, g₃ g) :=
    h₂.step (a := Act.readmem 1 good bad) ⟨trivial, trivial⟩
      (System.observed_step.mpr ⟨hf, rfl⟩)
  have h₄ := h₃.step (a := Act.addReq 1) ⟨trivial, trivial⟩ rfl
  intro h
  have hgranted := (sendsHonest_iff 32 _).mp h _ _ (.lock 1) _ _ h₄ ⟨trivial, trivial⟩ rfl
    .tcpWrite 0 _ rfl (List.cons_ne_nil _ _) rfl
  exact hgranted.1.elim Bool.false_ne_true fun hn => hn hgrows

end UvWrapper.Uvconnect
