import UvWrapper.Connect.Moves

/-! # Send records in flight

From the moment `wirteData` obtains a record until the write callback for it has run the
record is in `m_mapSend`, one party holds it, and its buffer holds the payload that libuv is
given.
-/

namespace UvWrapper.Uvconnect

open Function Memory Ownership Recycling Transition

variable {w : ℕ} {s s' s₁ : Uvconnect} {a : Act} {es tr : List Event} {t r : ℕ} {ma : Answer}
  {buf p : List UInt8} {req : Req}

/-! ## What a history says of a record -/

def payloadOf (r : ℕ) : Event → Option (List UInt8)
  | .obtained _ x buf => if x = r then some buf else none
  | _ => none

def writtenOf (r : ℕ) : Event → Option (List UInt8)
  | .uvWrite x _ _ bytes => if x = r then some bytes else none
  | _ => none

/-- A record is in flight once it is obtained and until its write callback. -/
def flightOf (r : ℕ) : Event → Option Bool
  | .obtained _ x _ => if x = r then some true else none
  | .writeCb x _ => if x = r then some false else none
  | _ => none

theorem payloadOf_eq_none {e : Event} (h : e.isRecord = false) : payloadOf r e = none := by
  cases e <;> first | rfl | cases h

theorem writtenOf_eq_none {e : Event} (h : e.isRecord = false) : writtenOf r e = none := by
  cases e <;> first | rfl | cases h

theorem flightOf_eq_none {e : Event} (h : e.isRecord = false) : flightOf r e = none := by
  cases e <;> first | rfl | cases h

/-! ## Buffers and what covers them -/

def Bounded (w : ℕ) (p : List UInt8) : Prop := p.length + defaultBufferLen < 2 ^ w

instance (w : ℕ) (p : List UInt8) : Decidable (Bounded w p) :=
  inferInstanceAs (Decidable (_ < _))

theorem sendBuf_congr {st st' : StSend} (h : st'.tsafebuf = st.tsafebuf) :
    sendBuf st' = sendBuf st := by
  rw [sendBuf, h, sendBuf]

theorem covered_sendBuf {st : StSend} (h : st.tsafebuf.WellFormed w) :
    st.tsafebuf.covered (sendBuf st) =
      st.tsafebuf.contents.take (uint st.tsafebuf.contents.length) := h.covered

theorem take_uint_eq_iff : p.take (uint p.length) = p ↔ p.length < 2 ^ 32 := by
  constructor
  · intro h
    have hl := congrArg List.length h
    rw [List.length_take] at hl
    have hlt : uint p.length < 2 ^ 32 := Nat.mod_lt _ (by decide)
    omega
  · intro h
    rw [uint, Nat.mod_eq_of_lt h, List.take_length]

/-! ## The invariant -/

/-- Allocation succeeds, `uv_write` returns 0, lengths stay below their limit, and no other
user of the loop adds an `E_LOOP_STOP`. -/
def assumed (w : ℕ) (s : Uvconnect) : Act → Prop
  | .wirteData _ buf => Bounded w buf
  | .takeSend _ ma => ma.ok = true
  | .readmem _ ma re => ma.ok = true ∧ re.ok = true
  | .perform err => ∀ r, s.body = some (.tcpWrite r) → err = 0
  | .request _ (.other eEventType _) => eEventType ≠ .loopStop
  | _ => True

def recordOf : Req → Option ℕ
  | .tcpWrite r => some r
  | _ => none

theorem recordOf_eq_some : recordOf req = some r ↔ req = .tcpWrite r := by
  cases req <;> simp [recordOf]

instance (w : ℕ) (s : Uvconnect) : DecidablePred (assumed w s) := fun a =>
  match a with
  | .wirteData _ buf => inferInstanceAs (Decidable (Bounded w buf))
  | .takeSend _ ma => inferInstanceAs (Decidable (ma.ok = true))
  | .readmem _ ma re => inferInstanceAs (Decidable (ma.ok = true ∧ re.ok = true))
  | .perform err => decidable_of_iff ((s.body.bind recordOf).isSome → err = 0)
      ⟨fun h r hr => h (by simp [hr, recordOf]), fun h hs => by
        obtain ⟨r, hr⟩ := Option.isSome_iff_exists.mp hs
        obtain ⟨req, hb, hq⟩ := Option.bind_eq_some_iff.mp hr
        exact h r (by rw [hb, recordOf_eq_some.mp hq])⟩
  | .request _ (.other eEventType _) => inferInstanceAs (Decidable (eEventType ≠ .loopStop))
  | .request _ .connectToServer | .request _ .closeConnection | .request _ .reconnnect
  | .request _ .startReadData | .request _ .stopReadData | .registerConnect
  | .registerloopAndStream | .setEventHandler _ | .setIPAndAddr _ | .run _ | .setRunning _
  | .stop _ | .addReq _ | .lock _ | .turn _ | .connectCb _ _ | .readCb _ _ | .writeCb _ _
  | .closeCb _ => .isTrue trivial

theorem assumed.typed (h : assumed w s a) : typed s a := by
  cases a with
  | request t f => cases f <;> exact h
  | _ => trivial

theorem assumed.writesAccepted (h : assumed w s a) : writesAccepted s a := by
  cases a with
  | perform err => exact h
  | _ => trivial

/-- Who holds which records, and what is in them. -/
structure RecordInv (w : ℕ) (tr : List Event) (s : Uvconnect) : Prop where
  pool : s.sendPool.WellFormed
  known : ∀ x, s.sendPool.Knows x → x < s.created
  held : ∀ o x, s.Holds o x → x ∈ s.mapSend
  exclusive : Exclusive s.Holds
  flying : ∀ x, latest (flightOf x) tr = some true → x ∈ s.mapSend
  buffers : ∀ x < s.created, (s.send x).tsafebuf.WellFormed w
  checked : ∀ t p, s.call t = .checked p → Bounded w p
  obtained : ∀ t x p, s.call t = .obtained x p → latest (payloadOf x) tr = some p ∧
    (s.send x).tsafebuf.datalen = 0 ∧ Bounded w p
  content : ∀ o x, s.Holds o x → (∃ t p, o = .caller t ∧ s.call t = .obtained x p) ∨
    latest (payloadOf x) tr = some (s.send x).tsafebuf.contents
  writing : ∀ x buf, s.writing x = some buf → buf = sendBuf (s.send x) ∧
    latest (writtenOf x) tr = some ((s.send x).tsafebuf.covered buf)
  sound : ∀ x, .derefEnd x ∉ tr

theorem RecordInv.lt_created (hi : RecordInv w tr s) {o : Holder} (h : s.Holds o r) :
    r < s.created :=
  hi.known r (.inr (hi.held o r h))

theorem RecordInv.of_kept (hi : RecordInv w tr s) (hg : assumed w s a) (hk : Kept s s')
    (hc : CallsKept s a s') (hex : Exclusive s'.Holds)
    (hsrc : ∀ o x, s'.Holds o x → s.Holds o x ∨
      ∃ i, s.Holds i x ∧ ∀ t p, i = .caller t → s.call t ≠ .obtained x p)
    (he : ∀ e ∈ es, e.isRecord = false) : RecordInv w (tr ++ es) s' := by
  have hp : s'.sendPool = s.sendPool := by
    simp only [sendPool, hk.dSend, hk.mapSend]
  have hpay : ∀ x, latest (payloadOf x) (tr ++ es) = latest (payloadOf x) tr := fun x =>
    latest_append_of_none fun e hm => payloadOf_eq_none (he e hm)
  have hwrit : ∀ x, latest (writtenOf x) (tr ++ es) = latest (writtenOf x) tr := fun x =>
    latest_append_of_none fun e hm => writtenOf_eq_none (he e hm)
  have hfly : ∀ x, latest (flightOf x) (tr ++ es) = latest (flightOf x) tr := fun x =>
    latest_append_of_none fun e hm => flightOf_eq_none (he e hm)
  constructor
  case pool => exact hp ▸ hi.pool
  case known =>
    rw [hp, hk.created]
    exact hi.known
  case held =>
    intro o x ho
    rw [hk.mapSend]
    rcases hsrc o x ho with h | ⟨i, h, -⟩
    · exact hi.held o x h
    · exact hi.held i x h
  case exclusive => exact hex
  case flying =>
    intro x hx
    rw [hk.mapSend]
    exact hi.flying x (hfly x ▸ hx)
  case buffers =>
    intro x hx
    rw [hk.tsafebuf x]
    exact hi.buffers x (hk.created ▸ hx)
  case checked =>
    intro t p ht
    rcases hc.checked t p ht with h | rfl
    · exact hi.checked t p h
    · exact hg
  case obtained =>
    intro t x p ht
    rw [hpay, hk.tsafebuf]
    exact hi.obtained t x p ((hc.obtained t x p).mpr ht)
  case content =>
    intro o x ho
    rw [hpay, hk.tsafebuf]
    rcases hsrc o x ho with h | ⟨i, h, hne⟩
    · exact (hi.content o x h).imp_left fun ⟨t, p, ho', ht⟩ =>
        ⟨t, p, ho', (hc.obtained t x p).mp ht⟩
    · exact .inr ((hi.content i x h).resolve_left fun ⟨t, p, ho', ht⟩ => hne t p ho' ht)
  case writing =>
    intro x b hb
    rw [hwrit, hk.tsafebuf, sendBuf_congr (hk.tsafebuf x)]
    exact hi.writing x b (hk.writing ▸ hb)
  case sound =>
    intro x hx
    rcases List.mem_append.mp hx with hx | hx
    · exact hi.sound x hx
    · cases he _ hx

/-! ### A call obtains a record -/

structure Obtains (w : ℕ) (s s₁ : Uvconnect) (r : ℕ) : Prop where
  unused : r ∉ s.mapSend
  mapSend : s₁.mapSend = insert r s.mapSend
  pool : s₁.sendPool.WellFormed
  known : ∀ x, s₁.sendPool.Knows x → x < s₁.created
  buffers : ∀ x < s₁.created, (s₁.send x).tsafebuf.WellFormed w
  empty : (s₁.send r).tsafebuf.datalen = 0
  others : ∀ x, x ≠ r → s₁.send x = s.send x

theorem RecordInv.obtains (hi : RecordInv w tr s) (hw : defaultBufferLen < 2 ^ w)
    (h : s.takeSend ma = some (r, s₁)) : Obtains w s s₁ r := by
  rcases takeSend_cases h with ⟨b, hd, hb, rfl, rfl⟩ | ⟨rest, hd, rfl⟩
  · obtain ⟨hwf, hlen⟩ := Safebuffer.wellFormed_create hw hb
    have hfree : s.created ∉ s.sendPool.free := fun hx =>
      absurd (hi.known _ (.inl hx)) (Nat.lt_irrefl _)
    constructor
    case unused => exact fun hx => absurd (hi.known _ (.inr hx)) (Nat.lt_irrefl _)
    case mapSend => rfl
    case pool => exact hi.pool.create hfree
    case known =>
      intro x hx
      rcases (Pool.knows_create (p := s.sendPool) (r := s.created)).mp hx with rfl | hx
      · exact Nat.lt_succ_self _
      · exact (hi.known x hx).trans (Nat.lt_succ_self _)
    case buffers =>
      intro x hx
      rcases eq_or_ne x s.created with rfl | hxc
      · simpa using hwf
      · simpa [hxc] using hi.buffers x (by simp only at hx; omega)
    case empty => simpa using hlen
    case others => exact fun x hx => update_of_ne hx ..
  · have htake : s.sendPool.take = some (r, ⟨rest, insert r s.mapSend⟩) := by
      simp [Pool.take, sendPool, hd]
    have hr : r < s.created := hi.known r (.inl (by simp [sendPool, hd]))
    constructor
    case unused => exact hi.pool.not_busy_of_take htake
    case mapSend => rfl
    case pool => exact hi.pool.take htake
    case known => exact fun x hx => hi.known x ((Pool.knows_take htake).mp hx)
    case buffers =>
      intro x hx
      rcases eq_or_ne x r with rfl | hxr
      · simpa using (hi.buffers x hr).clearMem
      · simpa [hxr] using hi.buffers x hx
    case empty => simp [Safebuffer.clearMem]
    case others => exact fun x hx => update_of_ne hx ..

theorem holds_of_obtain {o : Holder} {x : ℕ} (hidle : s.threads.call t = .idle)
    (h : s.takeSend ma = some (r, s₁))
    (ho : Holds { s₁ with call := update s.call t (.obtained r buf) } o x) :
    (o = .caller t ∧ x = r) ∨ s.Holds o x := by
  obtain ⟨hth, -, hbody, hwriting⟩ := takeSend_threads h
  cases o with
  | caller u =>
    rcases eq_or_ne u t with rfl | hut
    · have hx : r = x := by simpa [Holds, hth, hidle] using ho
      exact .inl ⟨rfl, hx.symm⟩
    · exact .inr (holds_caller_of_eq ho (update_of_ne hut ..) (by rw [hth]))
  | handle h => exact .inr (by simpa [Holds, hth] using ho)
  | body => exact .inr (by simpa [Holds, hbody] using ho)
  | libuv => exact .inr (by simpa [Holds, hwriting] using ho)

theorem RecordInv.obtain (hi : RecordInv w tr s) (hl : s.LoopInv) (hc : s.call t = .checked buf)
    (h : s.takeSend ma = some (r, s₁)) :
    RecordInv w (tr ++ [.obtained t r buf])
      { s₁ with call := update s.call t (.obtained r buf) } := by
  have hbound := hi.checked t buf hc
  obtain ⟨hunused, hmap, hpool, hknown, hbuf, hempty, hothers⟩ :=
    hi.obtains (Nat.lt_of_le_of_lt (Nat.le_add_left ..) hbound) h
  obtain ⟨-, -, -, hwriting⟩ := takeSend_threads h
  have hnone : ∀ o, ¬ s.Holds o r := fun o ho => hunused (hi.held o r ho)
  have hsub : ∀ o x, Holds { s₁ with call := update s.call t (.obtained r buf) } o x →
      (o = .caller t ∧ x = r) ∨ s.Holds o x := fun o x ho =>
    holds_of_obtain (hl.idle_of_call (by rw [hc]; nofun)) h ho
  have hpay : ∀ x, x ≠ r → latest (payloadOf x) (tr ++ [.obtained t r buf]) =
      latest (payloadOf x) tr := fun x hx =>
    latest_append_of_none (by simp [payloadOf, Ne.symm hx])
  have hmem : ∀ x, (x ≠ r → x ∈ s.mapSend) → x ∈ s₁.mapSend := by
    intro x hx
    rw [hmap, Finset.mem_insert]
    exact or_iff_not_imp_left.mpr hx
  constructor
  case pool => exact hpool
  case known => exact hknown
  case held =>
    intro o x ho
    apply hmem x
    intro hxr
    rcases hsub o x ho with ⟨-, rfl⟩ | ho
    · exact (hxr rfl).elim
    · exact hi.held o x ho
  case exclusive => exact hi.exclusive.acquire hnone hsub
  case flying =>
    intro x hx
    apply hmem x
    intro hxr
    rw [latest_append_of_none (by simp [flightOf, hxr.symm])] at hx
    exact hi.flying x hx
  case buffers => exact hbuf
  case checked =>
    intro u p hu
    exact hi.checked u p (Update.of_update (by simp) hu).2
  case obtained =>
    intro u x p hu
    rcases eq_or_ne u t with rfl | hut
    · obtain ⟨rfl, rfl⟩ : r = x ∧ buf = p := by simpa using hu
      exact ⟨by simp [latest, payloadOf], hempty, hbound⟩
    · have hu' : s.call u = .obtained x p := by simpa [hut] using hu
      have hxr : x ≠ r := fun he => hnone (.caller u) (.inl ⟨p, he ▸ hu'⟩)
      rw [hpay x hxr]
      simpa only [hothers x hxr] using hi.obtained u x p hu'
  case content =>
    intro o x ho
    rcases hsub o x ho with ⟨rfl, rfl⟩ | ho'
    · exact .inl ⟨t, buf, rfl, by simp⟩
    · have hxr : x ≠ r := fun he => hnone o (he ▸ ho')
      rw [hpay x hxr]
      rcases hi.content o x ho' with ⟨u, p, hou, hu⟩ | hcont
      · have hut : u ≠ t := fun he => by cases hc.symm.trans (he ▸ hu)
        exact .inl ⟨u, p, hou, by simpa [hut] using hu⟩
      · exact .inr (by simpa only [hothers x hxr] using hcont)
  case writing =>
    intro x b hb
    have hb' : s.writing x = some b := by simpa only [hwriting] using hb
    have hxr : x ≠ r := fun he => hnone .libuv (by simp [Holds, ← he, hb'])
    rw [latest_append_of_none (by simp [writtenOf])]
    simpa only [hothers x hxr] using hi.writing x b hb'
  case sound =>
    intro x hx
    simp [hi.sound x] at hx

/-! ### The record is filled, written and recycled -/

theorem holds_of_fill {b : Safebuffer} {o : Holder} {x : ℕ} (hc : s.call t = .obtained r buf)
    (ho : Holds { s with
      send := update s.send r { s.send r with tsafebuf := b }
      call := update s.call t (.requesting (.tcpWrite r)) } o x) : s.Holds o x := by
  cases o with
  | caller u =>
    rcases eq_or_ne u t with rfl | hut
    · rcases ho with ⟨p, hp⟩ | hp | hp
      · simp at hp
      · obtain rfl : r = x := by simpa using hp
        exact .inl ⟨buf, hc⟩
      · exact .inr (.inr hp)
    · exact holds_caller_of_eq ho (update_of_ne hut ..) rfl
  | handle | body | libuv => exact ho

theorem RecordInv.fill (hi : RecordInv w tr s) {re : Answer} {b : Safebuffer} {ok : Bool}
    (hok : re.ok = true) (hc : s.call t = .obtained r buf)
    (h : (s.send r).tsafebuf.readmem w buf ma re = some (b, ok)) :
    RecordInv w (tr ++ [.filled t r ok]) { s with
      send := update s.send r { s.send r with tsafebuf := b }
      call := update s.call t (.requesting (.tcpWrite r)) } := by
  have hheld : s.Holds (.caller t) r := .inl ⟨buf, hc⟩
  obtain ⟨hpay, hempty, hbound⟩ := hi.obtained t r buf hc
  have hwf := hi.buffers r (hi.lt_created hheld)
  have hnil : (s.send r).tsafebuf.contents = [] :=
    List.eq_nil_of_length_eq_zero (hwf.length_contents.trans hempty)
  obtain ⟨b', hb', hwf', hcont⟩ := hwf.readmem buf ma
    (by rw [hempty, Nat.zero_add]; exact hbound) hok
  obtain ⟨rfl, -⟩ := Prod.mk.inj (Option.some.inj (hb'.symm.trans h))
  rw [hnil, List.nil_append] at hcont
  have hother : ∀ o x, s.Holds o x → o ≠ .caller t → x ≠ r := fun o x ho hne he =>
    hne (hi.exclusive _ _ _ (he ▸ ho) hheld)
  have hsub : ∀ o x, Holds { s with
      send := update s.send r { s.send r with tsafebuf := b' }
      call := update s.call t (.requesting (.tcpWrite r)) } o x → s.Holds o x := fun _ _ =>
    holds_of_fill hc
  have hlate : ∀ {β : Type} (f : Event → Option β), f (.filled t r ok) = none →
      latest f (tr ++ [.filled t r ok]) = latest f tr := fun f hf =>
    latest_append_of_none (by simpa using hf)
  constructor
  case pool => exact hi.pool
  case known => exact hi.known
  case held => exact fun o x ho => hi.held o x (hsub o x ho)
  case exclusive => exact hi.exclusive.drop hsub
  case flying =>
    intro x hx
    rw [hlate _ rfl] at hx
    exact hi.flying x hx
  case buffers =>
    intro x hx
    rcases eq_or_ne x r with rfl | hxr
    · simpa using hwf'
    · simpa [hxr] using hi.buffers x hx
  case checked =>
    intro u p hu
    exact hi.checked u p (Update.of_update (by simp) hu).2
  case obtained =>
    intro u x p hu
    obtain ⟨hut, hu'⟩ := Update.of_update (by simp) hu
    have hxr := hother (.caller u) x (.inl ⟨p, hu'⟩) (fun he => hut (Holder.caller.inj he))
    rw [hlate _ rfl]
    simpa [hxr] using hi.obtained u x p hu'
  case content =>
    intro o x ho
    rw [hlate _ rfl]
    rcases eq_or_ne x r with rfl | hxr
    · exact .inr (by simpa [hcont] using hpay)
    · rcases hi.content o x (hsub o x ho) with ⟨u, p, hou, hu⟩ | hcx
      · have hut : u ≠ t := by
          rintro rfl
          exact hxr (Writer.obtained.inj (hu.symm.trans hc)).1
        exact .inl ⟨u, p, hou, by simpa [hut] using hu⟩
      · exact .inr (by simpa [hxr] using hcx)
  case writing =>
    intro x c hx
    have hxr := hother .libuv x (by simp [Holds, show s.writing x = some c from hx]) (by simp)
    rw [hlate _ rfl]
    simpa [hxr] using hi.writing x c hx
  case sound =>
    intro x hx
    simp [hi.sound x] at hx

theorem holds_of_write {o : Holder} {x : ℕ} (ho : Holds { s with
      body := none
      send := update s.send r { s.send r with tbuf := sendBuf (s.send r) }
      writing := update s.writing r (some (sendBuf (s.send r))) } o x) :
    (o = .libuv ∧ x = r) ∨ (s.Holds o x ∧ ¬ (o = .body ∧ x = r)) := by
  cases o with
  | caller | handle => exact .inr ⟨ho, nofun⟩
  | body => cases ho
  | libuv =>
    rcases eq_or_ne x r with rfl | hxr
    · exact .inl ⟨rfl, rfl⟩
    · exact .inr ⟨by simpa [Holds, hxr] using ho, nofun⟩

theorem RecordInv.write (hi : RecordInv w tr s) {h : ℕ} (hb : s.body = some (.tcpWrite r)) :
    RecordInv w
      (tr ++ [.uvWrite r h (s.tcp h) ((s.send r).tsafebuf.covered (sendBuf (s.send r)))])
      { s with
        body := none
        send := update s.send r { s.send r with tbuf := sendBuf (s.send r) }
        writing := update s.writing r (some (sendBuf (s.send r))) } := by
  have hheld : s.Holds .body r := hb
  have hbuf : ∀ x, (update s.send r { s.send r with tbuf := sendBuf (s.send r) } x).tsafebuf =
      (s.send x).tsafebuf := fun _ => Update.apply_update_of_eq (g := StSend.tsafebuf) rfl
  have hsb : ∀ x, sendBuf (update s.send r { s.send r with tbuf := sendBuf (s.send r) } x) =
      sendBuf (s.send x) := fun x => sendBuf_congr (hbuf x)
  have hsub : ∀ o x, Holds { s with
      body := none
      send := update s.send r { s.send r with tbuf := sendBuf (s.send r) }
      writing := update s.writing r (some (sendBuf (s.send r))) } o x →
      (o = .libuv ∧ x = r) ∨ (s.Holds o x ∧ ¬ (o = .body ∧ x = r)) := fun _ _ => holds_of_write
  have hlate : ∀ {β : Type} (f : Event → Option β) (e : Event), f e = none →
      latest f (tr ++ [e]) = latest f tr := fun f e hf =>
    latest_append_of_none (by simpa using hf)
  constructor
  case pool => exact hi.pool
  case known => exact hi.known
  case held =>
    intro o x ho
    rcases hsub o x ho with ⟨-, rfl⟩ | ⟨ho, -⟩
    · exact hi.held .body x hheld
    · exact hi.held o x ho
  case exclusive => exact hi.exclusive.give hheld hsub
  case flying =>
    intro x hx
    rw [hlate _ _ rfl] at hx
    exact hi.flying x hx
  case buffers =>
    intro x hx
    simpa only [hbuf] using hi.buffers x hx
  case checked => exact hi.checked
  case obtained =>
    intro u x p hu
    rw [hlate _ _ rfl]
    simpa only [hbuf] using hi.obtained u x p hu
  case content =>
    intro o x ho
    rw [hlate _ _ rfl]
    simp only [hbuf]
    rcases hsub o x ho with ⟨-, rfl⟩ | ⟨ho, -⟩
    · refine .inr ((hi.content .body x hheld).resolve_left ?_)
      rintro ⟨u, p, hou, -⟩
      cases hou
    · exact hi.content o x ho
  case writing =>
    intro x c hx
    simp only [hsb, hbuf]
    rcases eq_or_ne x r with rfl | hxr
    · obtain rfl : sendBuf (s.send x) = c := by simpa using hx
      exact ⟨rfl, by simp [latest, writtenOf]⟩
    · rw [hlate _ _ (by simp [writtenOf, Ne.symm hxr])]
      exact hi.writing x c (by simpa [hxr] using hx)
  case sound =>
    intro x hx
    simp [hi.sound x] at hx

theorem RecordInv.complete (hi : RecordInv w tr s) {status : ℤ} (hw : (s.writing r).isSome) :
    RecordInv w (tr ++ (s.written r status).2) (s.written r status).1 := by
  have hheld : s.Holds .libuv r := hw
  have hm := hi.held .libuv r hheld
  have hrec := Pool.recycle_of_mem (p := s.sendPool) hm
  have he : s.written r status = ({ s with
      writing := update s.writing r none
      dSend := s.dSend ++ [r]
      mapSend := s.mapSend.erase r }, .writeCb r status :: s.notify .write status) := by
    simp [written, hm]
  rw [he]
  have hsub : ∀ o x, Holds { s with
      writing := update s.writing r none
      dSend := s.dSend ++ [r]
      mapSend := s.mapSend.erase r } o x → s.Holds o x ∧ x ≠ r := by
    intro o x ho
    have hne : o ≠ .libuv → s.Holds o x → x ≠ r := fun hol ho hx =>
      hol (hi.exclusive _ _ _ (hx ▸ ho) hheld)
    cases o with
    | caller | handle | body => exact ⟨ho, hne nofun ho⟩
    | libuv =>
      rcases eq_or_ne x r with rfl | hxr
      · simp [Holds] at ho
      · exact ⟨by simpa [Holds, hxr] using ho, hxr⟩
  have hnotify := notify_isRecord s .write status
  have hlate : ∀ {β : Type} (f : Event → Option β), f (.writeCb r status) = none →
      (∀ e : Event, e.isRecord = false → f e = none) →
      latest f (tr ++ .writeCb r status :: s.notify .write status) = latest f tr := fun f hf hn =>
    latest_append_of_none (List.forall_mem_cons.mpr ⟨hf, fun e hm => hn e (hnotify e hm)⟩)
  constructor
  case pool => exact hi.pool.recycle hrec
  case known => exact fun x hx => hi.known x ((Pool.knows_recycle hrec).mp hx)
  case held =>
    intro o x ho
    obtain ⟨ho, hxr⟩ := hsub o x ho
    exact Finset.mem_erase.mpr ⟨hxr, hi.held o x ho⟩
  case exclusive => exact hi.exclusive.drop fun o x ho => (hsub o x ho).1
  case flying =>
    intro x hx
    rcases eq_or_ne x r with rfl | hxr
    · have hn : (s.notify .write status).filterMap (flightOf x) = [] :=
        List.filterMap_eq_nil_iff.mpr fun e hm => flightOf_eq_none (hnotify e hm)
      have hhead : flightOf x (.writeCb x status) = some false := if_pos rfl
      have hend : latest (flightOf x) (.writeCb x status :: s.notify .write status) =
          some false := by
        rw [latest, List.filterMap_cons_some hhead, hn, List.getLast?_singleton]
      rw [latest_append, hend] at hx
      cases hx
    · rw [hlate _ (by simp [flightOf, Ne.symm hxr]) fun _ => flightOf_eq_none] at hx
      exact Finset.mem_erase.mpr ⟨hxr, hi.flying x hx⟩
  case buffers => exact hi.buffers
  case checked => exact hi.checked
  case obtained =>
    intro u x p hu
    rw [hlate _ rfl fun _ => payloadOf_eq_none]
    exact hi.obtained u x p hu
  case content =>
    intro o x ho
    rw [hlate _ rfl fun _ => payloadOf_eq_none]
    exact hi.content o x (hsub o x ho).1
  case writing =>
    intro x c hx
    rw [hlate _ rfl fun _ => writtenOf_eq_none]
    have hxr : x ≠ r := fun h => by simp [h] at hx
    exact hi.writing x c (by simpa [hxr] using hx)
  case sound =>
    intro x hx
    rcases List.mem_append.mp hx with hx | hx
    · exact hi.sound x hx
    · rcases List.mem_cons.mp hx with hx | hx
      · cases hx
      · cases hnotify _ hx

theorem RecordInv.step (hi : RecordInv w tr s) (hl : s.LoopInv) (hg : assumed w s a)
    (hs : s.step w a = some (s', es)) : RecordInv w (tr ++ es) s' := by
  cases hl.move hg.writesAccepted hs with
  | keep a s' es hk hc hsub he =>
    exact hi.of_kept hg hk hc (hi.exclusive.drop hsub) (fun o x ho => .inl (hsub o x ho)) he
  | give a s' es i j r hk hc hir hne _ hsub he =>
    refine hi.of_kept hg hk hc (hi.exclusive.give hir hsub) (fun o x ho => ?_) he
    rcases hsub o x ho with ⟨-, rfl⟩ | ⟨ho, -⟩
    · exact .inr ⟨i, hir, hne⟩
    · exact .inl ho
  | obtain t ma buf r s₁ hc ht => exact hi.obtain hl hc ht
  | fill t ma re r buf b ok hc hr => exact hi.fill hg.2 hc hr
  | write r h hb => exact hi.write hb
  | complete r status hw => exact hi.complete hw

theorem create_holds (garbage : ℕ → EType) (send : ℕ → StSend) (o : Holder) (x : ℕ) :
    ¬ (create garbage send).Holds o x := by
  cases o <;> simp [Holds, create, Uvloop.carries, Uvloop.create]

theorem create_loopInv (garbage : ℕ → EType) (send : ℕ → StSend) :
    (create garbage send).LoopInv where
  threads := ⟨Uvloop.create_inv garbage, nofun⟩
  types _ _ := nofun
  single _ := .inl rfl

theorem create_recordInv (garbage : ℕ → EType) (send : ℕ → StSend) :
    RecordInv w [] (create garbage send) where
  pool := ⟨List.nodup_nil, by simp [create, sendPool]⟩
  known := by simp [create, sendPool, Pool.Knows]
  held o x ho := (create_holds garbage send o x ho).elim
  exclusive i _ r hi := (create_holds garbage send i r hi).elim
  flying _ := nofun
  buffers _ := nofun
  checked _ _ := nofun
  obtained _ _ _ := nofun
  content o x ho := (create_holds garbage send o x ho).elim
  writing _ _ := nofun
  sound _ := List.not_mem_nil

theorem recordInv_of_reach (h : (connection w).Reach (assumed w) tr s) :
    s.LoopInv ∧ RecordInv w tr s := by
  refine h.invariant (I := fun tr s => s.LoopInv ∧ RecordInv w tr s) ?_
    fun tr s a s' es _ ⟨hl, hi⟩ hg hs => ⟨hl.step hg.typed hs, hi.step hl hg hs⟩
  rintro s ⟨garbage, send, rfl⟩
  exact ⟨create_loopInv garbage send, create_recordInv garbage send⟩

end UvWrapper.Uvconnect
