import UvWrapper.Netlib.Async
import UvWrapper.Netlib.Records

/-! # The pool of write records

A record is in `m_mapSend` from the `net_Send` that takes it until its `write_cb`. In
between one party holds it, the calling thread or libuv, and its buffer keeps the payload
of that `net_Send`.
-/

namespace UvWrapper.Netlibuv

open Function Memory Ownership Transition

variable {w : ℕ} {s s' s₁ : Netlibuv} {a : Act} {es tr : List Event} {t r : ℕ}
  {p : List UInt8} {ma re : Answer}

/-! ## What a history says of a record -/

/-- A write is in flight from the moment its `net_Send` takes a record to its `write_cb`. -/
def flightOf (r : ℕ) : Event → Option Bool
  | .obtained _ x _ => if x = r then some true else none
  | .writeCb x _ _ => if x = r then some false else none
  | _ => none

def payloadOf (r : ℕ) : Event → Option (List UInt8)
  | .obtained _ x pBuffer => if x = r then some pBuffer else none
  | _ => none

def Event.isObtained : Event → Bool
  | .obtained _ _ _ => true
  | _ => false

def Event.isWritten : Event → Bool
  | .writeCb _ _ _ => true
  | _ => false

def Event.isPool (e : Event) : Bool := e.isObtained || e.isWritten

theorem flightOf_eq_none {e : Event} (h : e.isPool = false) : flightOf r e = none := by
  cases e <;> first | rfl | cases h

theorem payloadOf_eq_none {e : Event} (h : e.isPool = false) : payloadOf r e = none := by
  cases e <;> first | rfl | cases h

theorem isPool_eq_false {e : Event} (h : e.isSend = false) : e.isPool = false := by
  cases e <;> first | rfl | cases h

/-! ## The invariant -/

/-- A length that an `unsigned int` can have, and that stays below the limit of `unsigned
long` when it is rounded; where the latter is the wider type the first bound is enough. -/
def Sized (w : ℕ) (p : List UInt8) : Prop :=
  p.length < 2 ^ 32 ∧ p.length + defaultBufferLen < 2 ^ w

instance (w : ℕ) (p : List UInt8) : Decidable (Sized w p) :=
  inferInstanceAs (Decidable (_ ∧ _))

def assumed (w : ℕ) (_ : Netlibuv) : Act → Prop
  | .netAsyncSend _ p ma re => Sized w p ∧ ma.ok = true ∧ re.ok = true
  | .netSend _ p => Sized w p
  | .takeSend _ ma => ma.ok = true
  | .fill _ ma re => ma.ok = true ∧ re.ok = true
  | .write _ err => err = 0
  | _ => True

def Sendst.Covers (st : Sendst) (p : List UInt8) : Prop :=
  st.uvBuf.len = p.length ∧ st.buffer.covered st.uvBuf = p

structure WriteInv (w : ℕ) (tr : List Event) (s : Netlibuv) : Prop where
  pool : s.sendPool.WellFormed
  known : ∀ x, s.sendPool.Knows x ↔ x < s.created
  flying : ∀ x, x ∈ s.mapSend ↔ latest (flightOf x) tr = some true
  held : ∀ o x, s.Holds o x → x ∈ s.mapSend
  exclusive : Exclusive s.Holds
  buffers : ∀ x < s.created, (s.send x).buffer.WellFormed w
  entered : ∀ t p, s.netSend t = .entered p → Sized w p
  obtained : ∀ t x p, s.netSend t = .obtained x p → latest (payloadOf x) tr = some p ∧
    (s.send x).buffer.datalen = 0 ∧ Sized w p
  filled : ∀ t x, s.netSend t = .filled x →
    ∃ p, latest (payloadOf x) tr = some p ∧ Sendst.Covers (s.send x) p
  writing : ∀ x buf, s.writing x = some buf → buf = (s.send x).uvBuf ∧
    ∃ p, latest (payloadOf x) tr = some p ∧ Sendst.Covers (s.send x) p
  unused : ∀ i ∈ s.dAsyncSend, ∃ ma, Safebuffer.create ma = some (s.asyncSend i)
  pending : ∀ i ∈ s.asyncPending, Sized w (s.asyncSend i).contents
  found : ∀ x status, .writeCb x false status ∉ tr

theorem WriteInv.poolInv (hi : WriteInv w tr s) : s.PoolInv :=
  ⟨hi.pool, hi.known, hi.held, hi.exclusive⟩

theorem writeInv_create {send : ℕ → Sendst} {asyncSend : ℕ → Safebuffer}
    (h : ∀ i < asyncHandleNum, ∃ ma, Safebuffer.create ma = some (asyncSend i)) :
    WriteInv w [] (create send asyncSend) := by
  have hp := poolInv_create send asyncSend
  constructor
  case pool => exact hp.pool
  case known => exact hp.known
  case flying => simp [create, latest]
  case held => exact hp.held
  case exclusive => exact hp.exclusive
  case buffers => simp [create]
  case entered => simp [create]
  case obtained => simp [create]
  case filled => simp [create]
  case writing => simp [create]
  case unused => exact fun i hi => h i (List.mem_range.mp hi)
  case pending => simp [create]
  case found => simp

theorem WriteInv.of_eq (hi : WriteInv w tr s) (hd : s'.dSend = s.dSend)
    (hm : s'.mapSend = s.mapSend) (hc : s'.created = s.created) (hs : s'.send = s.send)
    (hw : s'.writing = s.writing) (hn : s'.netSend = s.netSend)
    (hu : ∀ i ∈ s'.dAsyncSend, ∃ ma, Safebuffer.create ma = some (s'.asyncSend i))
    (hp : ∀ i ∈ s'.asyncPending, Sized w (s'.asyncSend i).contents)
    (he : ∀ e ∈ es, e.isPool = false) : WriteInv w (tr ++ es) s' := by
  have hpool := hi.poolInv.of_eq hd hm hc hw hn
  have hfly : ∀ x, latest (flightOf x) (tr ++ es) = latest (flightOf x) tr := fun x =>
    latest_append_of_none fun e hm => flightOf_eq_none (he e hm)
  have hpay : ∀ x, latest (payloadOf x) (tr ++ es) = latest (payloadOf x) tr := fun x =>
    latest_append_of_none fun e hm => payloadOf_eq_none (he e hm)
  constructor
  case pool => exact hpool.pool
  case known => exact hpool.known
  case flying => simpa only [hm, hfly] using hi.flying
  case held => exact hpool.held
  case exclusive => exact hpool.exclusive
  case buffers => rw [hc, hs]; exact hi.buffers
  case entered => rw [hn]; exact hi.entered
  case obtained => simpa only [hn, hs, hpay] using hi.obtained
  case filled => simpa only [hn, hs, hpay] using hi.filled
  case writing => simpa only [hw, hs, hpay] using hi.writing
  case unused => exact hu
  case pending => exact hp
  case found =>
    intro x status hx
    rcases List.mem_append.mp hx with hx | hx
    · exact hi.found x status hx
    · cases he _ hx

/-! ### Asynchronous sends -/

theorem WriteInv.accept (hi : WriteInv w tr s) (ha : AsyncInv tr s) {i : ℕ} {rest : List ℕ}
    {b : Safebuffer} {ok : Bool} (hd : s.dAsyncSend = i :: rest) (hp : Sized w p)
    (hre : re.ok = true) (hb : (s.asyncSend i).clearMem.readmem w p ma re = some (b, ok)) :
    WriteInv w (tr ++ [.asyncAccepted i p]) { s with
      dAsyncSend := rest
      mapAsyncSend := insert i s.mapAsyncSend
      asyncSend := update s.asyncSend i b
      asyncPending := insert i s.asyncPending } := by
  obtain ⟨ma₀, hnew⟩ := hi.unused i (by simp [hd])
  obtain ⟨hwf, -⟩ := Safebuffer.wellFormed_create
    (Nat.lt_of_le_of_lt (Nat.le_add_left ..) hp.2) hnew
  have hcl := hwf.clearMem
  have hempty : (s.asyncSend i).clearMem.contents = [] :=
    List.eq_nil_of_length_eq_zero hcl.length_contents
  obtain ⟨b', hb', -, hcont⟩ := hcl.readmem p ma
    (by simpa [Safebuffer.clearMem] using hp.2) hre
  obtain ⟨rfl, -⟩ := Prod.mk.inj (Option.some.inj (hb'.symm.trans hb))
  rw [hempty, List.nil_append] at hcont
  have hnodup := ha.pool.nodup
  simp only [asyncPool, hd] at hnodup
  refine hi.of_eq rfl rfl rfl rfl rfl rfl ?_ ?_ (by simp [Event.isPool, Event.isObtained,
    Event.isWritten])
  · intro j hj
    have hji : j ≠ i := fun he => (List.nodup_cons.mp hnodup).1 (he ▸ hj)
    simpa [hji] using hi.unused j (by simp [hd, hj])
  · intro j hj
    rcases eq_or_ne j i with rfl | hji
    · simpa only [update_self, hcont] using hp
    · simpa [hji] using hi.pending j ((Finset.mem_insert.mp hj).resolve_left hji)

theorem Sized.take (h : Sized w p) (n : ℕ) : Sized w (p.take n) := by
  have hl : (p.take n).length ≤ p.length := List.length_take_le' n p
  obtain ⟨h₁, h₂⟩ := h
  exact ⟨by omega, by omega⟩

theorem WriteInv.enter (hi : WriteInv w tr s) (hp : Sized w p) :
    WriteInv w tr { s with netSend := update s.netSend t (.entered p) } := by
  have hpool : PoolInv { s with netSend := update s.netSend t (.entered p) } :=
    hi.poolInv.drop rfl rfl rfl fun _ _ => holds_of_enter
  constructor
  case pool => exact hpool.pool
  case known => exact hpool.known
  case flying => exact hi.flying
  case held => exact hpool.held
  case exclusive => exact hpool.exclusive
  case buffers => exact hi.buffers
  case entered =>
    intro u q hu
    rcases eq_or_ne u t with rfl | hut
    · obtain rfl : p = q := by simpa using hu
      exact hp
    · exact hi.entered u q (by simpa [hut] using hu)
  case obtained =>
    intro u x q hu
    exact hi.obtained u x q (Update.of_update (by simp) hu).2
  case filled =>
    intro u x hu
    exact hi.filled u x (Update.of_update (by simp) hu).2
  case writing => exact hi.writing
  case unused => exact hi.unused
  case pending => exact hi.pending
  case found => exact hi.found

/-! ### A call takes a record -/

/-- The record that `net_Send` takes was in use by nobody, and its buffer is empty. -/
structure Takes (w : ℕ) (s s₁ : Netlibuv) (r : ℕ) : Prop where
  unused : r ∉ s.mapSend
  mapSend : s₁.mapSend = insert r s.mapSend
  pool : s₁.sendPool.WellFormed
  known : ∀ x, s₁.sendPool.Knows x ↔ x < s₁.created
  buffers : ∀ x < s₁.created, (s₁.send x).buffer.WellFormed w
  empty : (s₁.send r).buffer.datalen = 0
  others : ∀ x, x ≠ r → s₁.send x = s.send x
  writing : s₁.writing = s.writing
  asyncs : s₁.dAsyncSend = s.dAsyncSend ∧ s₁.asyncPending = s.asyncPending ∧
    s₁.asyncSend = s.asyncSend

theorem WriteInv.takes (hi : WriteInv w tr s) (hw : defaultBufferLen < 2 ^ w)
    (h : s.takeSend ma = some (r, s₁)) : Takes w s s₁ r := by
  obtain ⟨hunused, hmap, hpool, hknown, hempty, hothers, hwriting⟩ := hi.poolInv.takes h
  have hasyncs : s₁.dAsyncSend = s.dAsyncSend ∧ s₁.asyncPending = s.asyncPending ∧
      s₁.asyncSend = s.asyncSend := by
    rcases takeSend_cases h with ⟨b, -, -, -, rfl⟩ | ⟨rest, -, rfl⟩ <;> exact ⟨rfl, rfl, rfl⟩
  have hbuf : ∀ x < s₁.created, (s₁.send x).buffer.WellFormed w := by
    intro x hx
    rcases takeSend_cases h with ⟨b, -, hb, rfl, rfl⟩ | ⟨rest, hd, rfl⟩
    · obtain ⟨hwf, -⟩ := Safebuffer.wellFormed_create hw hb
      rcases eq_or_ne x s.created with rfl | hxc
      · simpa using hwf
      · simpa [hxc] using hi.buffers x (by simp only at hx; omega)
    · rcases eq_or_ne x r with rfl | hxr
      · simpa using (hi.buffers x hx).clearMem
      · simpa [hxr] using hi.buffers x hx
  exact ⟨hunused, hmap, hpool, hknown, hbuf, hempty, hothers, hwriting, hasyncs⟩

theorem WriteInv.obtain (hi : WriteInv w tr s) (hn : s.netSend t = .entered p)
    (h : s.takeSend ma = some (r, s₁)) : WriteInv w (tr ++ [.obtained t r p])
      { s₁ with netSend := update s.netSend t (.obtained r p) } := by
  have hsized := hi.entered t p hn
  obtain ⟨hunused, hmap, hpool, hknown, hbuf, hempty, hothers, hwriting, hda, hpend, hasync⟩ :=
    hi.takes (Nat.lt_of_le_of_lt (Nat.le_add_left ..) hsized.2) h
  have hpoolInv : PoolInv { s₁ with netSend := update s.netSend t (.obtained r p) } :=
    hi.poolInv.obtain h
  have hpay : ∀ x, x ≠ r → latest (payloadOf x) (tr ++ [.obtained t r p]) =
      latest (payloadOf x) tr := fun x hx =>
    latest_append_of_none (by simp [payloadOf, hx.symm])
  have hkept : ∀ x, x ∈ s.mapSend → x ≠ r := fun x hx he => hunused (he ▸ hx)
  constructor
  case pool => exact hpool
  case known => exact hknown
  case flying =>
    intro x
    simp only [hmap, Finset.mem_insert]
    rcases eq_or_ne x r with rfl | hx
    · simp [latest, flightOf]
    · rw [latest_append_of_none (by simp [flightOf, hx.symm]), ← hi.flying x]
      simp [hx]
  case held => exact hpoolInv.held
  case exclusive => exact hpoolInv.exclusive
  case buffers => exact hbuf
  case entered =>
    intro u q hu
    exact hi.entered u q (Update.of_update (by simp) hu).2
  case obtained =>
    intro u x q hu
    rcases eq_or_ne u t with rfl | hut
    · obtain ⟨rfl, rfl⟩ : r = x ∧ p = q := by simpa using hu
      exact ⟨by simp [latest, payloadOf], hempty, hsized⟩
    · have hu' : s.netSend u = .obtained x q := by simpa [hut] using hu
      have hxr := hkept x (hi.held (.caller u) x (.inl ⟨q, hu'⟩))
      simpa only [hpay x hxr, hothers x hxr] using hi.obtained u x q hu'
  case filled =>
    intro u x hu
    have hu' : s.netSend u = .filled x := (Update.of_update (by simp) hu).2
    have hxr := hkept x (hi.held (.caller u) x (.inr hu'))
    simpa only [hpay x hxr, hothers x hxr] using hi.filled u x hu'
  case writing =>
    intro x buf hb
    have hb' : s.writing x = some buf := by simpa only [hwriting] using hb
    have hxr := hkept x (hi.held .libuv x (by simp [Holds, hb']))
    simpa only [hpay x hxr, hothers x hxr] using hi.writing x buf hb'
  case unused => simpa only [hda, hasync] using hi.unused
  case pending => simpa only [hpend, hasync] using hi.pending
  case found =>
    intro x status hx
    simp [hi.found x] at hx

/-! ### The record is filled, written and recycled -/

theorem WriteInv.fill (hi : WriteInv w tr s) {b : Safebuffer} {ok : Bool}
    (hre : re.ok = true) (hn : s.netSend t = .obtained r p)
    (h : (s.send r).buffer.readmem w p ma re = some (b, ok)) : WriteInv w tr { s with
      send := update s.send r ⟨uvBufInit (b.pbuffer.map Block.addr) b.datalen, b⟩
      netSend := update s.netSend t (.filled r) } := by
  have hheld : s.Holds (.caller t) r := .inl ⟨p, hn⟩
  obtain ⟨hpay, hempty, hlen, hround⟩ := hi.obtained t r p hn
  have hr : r < s.created := (hi.known r).mp (.inr (hi.held _ r hheld))
  have hwf := hi.buffers r hr
  have hnil : (s.send r).buffer.contents = [] :=
    List.eq_nil_of_length_eq_zero (hwf.length_contents.trans hempty)
  obtain ⟨b', hb', hwf', hcont⟩ := hwf.readmem p ma
    (by rw [hempty, Nat.zero_add]; exact hround) hre
  obtain ⟨rfl, -⟩ := Prod.mk.inj (Option.some.inj (hb'.symm.trans h))
  rw [hnil, List.nil_append] at hcont
  have hcovers : Sendst.Covers ⟨uvBufInit (b'.pbuffer.map Block.addr) b'.datalen, b'⟩ p := by
    have hd : uint b'.datalen = p.length := by
      rw [← hwf'.length_contents, hcont]
      exact Nat.mod_eq_of_lt hlen
    refine ⟨hd, hwf'.covered.trans ?_⟩
    rw [hwf'.length_contents, hd, hcont, List.take_length]
  have hpool : PoolInv { s with
      send := update s.send r ⟨uvBufInit (b'.pbuffer.map Block.addr) b'.datalen, b'⟩
      netSend := update s.netSend t (.filled r) } :=
    hi.poolInv.drop rfl rfl rfl fun _ _ => holds_of_fill hn
  have hother : ∀ o x, s.Holds o x → o ≠ .caller t → x ≠ r := fun o x ho hne he =>
    hne (hi.exclusive _ _ _ (he ▸ ho) hheld)
  constructor
  case pool => exact hpool.pool
  case known => exact hpool.known
  case flying => exact hi.flying
  case held => exact hpool.held
  case exclusive => exact hpool.exclusive
  case buffers =>
    intro x hx
    rcases eq_or_ne x r with rfl | hxr
    · simpa using hwf'
    · simpa [hxr] using hi.buffers x hx
  case entered =>
    intro u q hu
    exact hi.entered u q (Update.of_update (by simp) hu).2
  case obtained =>
    intro u x q hu
    obtain ⟨hut, hu'⟩ := Update.of_update (by simp) hu
    have hxr := hother (.caller u) x (.inl ⟨q, hu'⟩) fun he => hut (Holder.caller.inj he)
    simpa [hxr] using hi.obtained u x q hu'
  case filled =>
    intro u x hu
    rcases eq_or_ne u t with rfl | hut
    · obtain rfl : r = x := by simpa using hu
      exact ⟨p, hpay, by simpa using hcovers⟩
    · have hu' : s.netSend u = .filled x := by simpa [hut] using hu
      have hxr := hother (.caller u) x (.inr hu') fun he => hut (Holder.caller.inj he)
      simpa [hxr] using hi.filled u x hu'
  case writing =>
    intro x buf hb
    have hxr := hother .libuv x (by simpa [Holds] using Option.isSome_of_eq_some hb) (by simp)
    simpa [hxr] using hi.writing x buf hb
  case unused => exact hi.unused
  case pending => exact hi.pending
  case found => exact hi.found

theorem WriteInv.write (hi : WriteInv w tr s) (hn : s.netSend t = .filled r) :
    WriteInv w tr { s with
      writing := update s.writing r (some (s.send r).uvBuf)
      netSend := update s.netSend t .idle } := by
  have hpool := hi.poolInv.write hn
  constructor
  case pool => exact hpool.pool
  case known => exact hpool.known
  case flying => exact hi.flying
  case held => exact hpool.held
  case exclusive => exact hpool.exclusive
  case buffers => exact hi.buffers
  case entered =>
    intro u q hu
    exact hi.entered u q (Update.of_update (by simp) hu).2
  case obtained =>
    intro u x q hu
    exact hi.obtained u x q (Update.of_update (by simp) hu).2
  case filled =>
    intro u x hu
    exact hi.filled u x (Update.of_update (by simp) hu).2
  case writing =>
    intro x buf hb
    rcases eq_or_ne x r with rfl | hxr
    · obtain rfl : (s.send x).uvBuf = buf := by simpa using hb
      exact ⟨rfl, hi.filled t x hn⟩
    · exact hi.writing x buf (by simpa [hxr] using hb)
  case unused => exact hi.unused
  case pending => exact hi.pending
  case found => exact hi.found

theorem WriteInv.recycle (hi : WriteInv w tr s) {status : ℤ} (hw : (s.writing r).isSome)
    (hr : r ∈ s.mapSend) : WriteInv w (tr ++ [.writeCb r true status]) { s with
      writing := update s.writing r none
      dSend := s.dSend ++ [r]
      mapSend := s.mapSend.erase r } := by
  have hpool := hi.poolInv.recycle hw hr
  have hpay : ∀ x, latest (payloadOf x) (tr ++ [.writeCb r true status]) =
      latest (payloadOf x) tr := fun x => latest_append_of_none (by simp [payloadOf])
  constructor
  case pool => exact hpool.pool
  case known => exact hpool.known
  case flying =>
    intro x
    simp only [Finset.mem_erase]
    rcases eq_or_ne x r with rfl | hx
    · simp [latest, flightOf]
    · rw [latest_append_of_none (by simp [flightOf, hx.symm]), ← hi.flying x]
      simp [hx]
  case held => exact hpool.held
  case exclusive => exact hpool.exclusive
  case buffers => exact hi.buffers
  case entered => exact hi.entered
  case obtained => simpa only [hpay] using hi.obtained
  case filled => simpa only [hpay] using hi.filled
  case writing =>
    intro x buf hb
    rw [hpay]
    exact hi.writing x buf (Update.of_update (by simp) hb).2
  case unused => exact hi.unused
  case pending => exact hi.pending
  case found =>
    intro x status' hx
    simp [hi.found x] at hx

theorem WriteInv.step (hi : WriteInv w tr s) (ha : AsyncInv tr s) (hg : assumed w s a)
    (hs : s.step w a = some (s', es)) : WriteInv w (tr ++ es) s' := by
  cases step_cases hs with
  | asyncRefused | writeFault | asyncReturned =>
    exact hi.of_eq rfl rfl rfl rfl rfl rfl hi.unused hi.pending
      (by simp [Event.isPool, Event.isObtained, Event.isWritten])
  | asyncAccepted t p ma re i rest b ok hd _ hb => exact hi.accept ha hd hg.1 hg.2.2 hb
  | entered t p => simpa using hi.enter (t := t) hg
  | obtained t ma p r s₁ hn ht => exact hi.obtain hn ht
  | filled t ma re p r b ok hn hb => simpa using hi.fill hg.2 hn hb
  | written t r hn =>
    exact (hi.write hn).of_eq rfl rfl rfl rfl rfl rfl hi.unused hi.pending
      (by simp [Event.isPool, Event.isObtained, Event.isWritten])
  | asyncEntered i hl hp hm =>
    have he := hi.enter (t := loopThread)
      ((hi.pending i hp).take (uint (s.asyncSend i).datalen))
    exact he.of_eq rfl rfl rfl rfl rfl rfl hi.unused
      (fun j hj => hi.pending j (Finset.mem_of_mem_erase hj))
      (by simp [Event.isPool, Event.isObtained, Event.isWritten])
  | asyncUnknown i hp hm => exact (hm (ha.pending i hp)).elim
  | writeDone r status buf hb hr => exact hi.recycle (Option.isSome_of_eq_some hb) hr
  | writeUnknown r status buf hb hr =>
    exact (hr (hi.held .libuv r (Option.isSome_of_eq_some hb))).elim
  | socket a s' es hc =>
    obtain ⟨he, hev⟩ := hc.sendsKept
    rw [he]
    exact hi.of_eq rfl rfl rfl rfl rfl rfl hi.unused hi.pending fun e hm =>
      isPool_eq_false (hev e hm)

theorem writeInv_of_reach (h : (netlib w).Reach (assumed w) tr s) : WriteInv w tr s := by
  refine h.invariant (I := WriteInv w) ?_ fun tr s a s' es hr hi hg hs =>
    hi.step (asyncInv_of_reach (hr.mono fun _ _ _ => trivial)) hg hs
  rintro s ⟨send, asyncSend, hb, rfl⟩
  exact writeInv_create hb

end UvWrapper.Netlibuv
