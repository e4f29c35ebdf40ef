import UvWrapper.Netlib.Records
import UvWrapper.Util.Copies

/-! # Payloads that were not stored

`net_Send` does not look at what `readmem` returns either: it makes a `uv_buf_t` of whatever
the buffer holds, gives it to `uv_write` and returns true.
-/

namespace UvWrapper.Netlibuv

open Function Memory Transition

variable {w : ℕ} {s s' s₁ : Netlibuv} {a : Act} {es tr : List Event} {t r x : ℕ}
  {p : List UInt8} {ma re : Answer} {ok : Bool} {H : Netlibuv → Act → Prop}

abbrev Copies := ℕ → Option Safebuffer.Copy

variable {g : Copies}

def noteCopy (s : Netlibuv) (a : Act) (_ : List Event) (g : Copies) : Copies :=
  match a with
  | .fill t ma re =>
    match s.netSend t with
    | .obtained r p => update g r (some ⟨(s.send r).buffer, p, ma, re⟩)
    | .idle | .entered _ | .filled _ => g
  | _ => g

abbrev copying (w : ℕ) : System (Netlibuv × Copies) Act Event :=
  (netlib w).observed (fun _ => none) noteCopy

/-- `net_Send` returns true and `uv_write` is issued for stored payloads only, and the
`uv_buf_t` covers exactly the payload. -/
structure Honest (w : ℕ) (g : Copies) (s s' : Netlibuv) (es : List Event) : Prop where
  returned : ∀ t r, s.netSend t = .filled r → s'.netSend t = .idle →
    ∃ c, g r = some c ∧ c.Stored w
  written : ∀ r handle bytes, .uvWrite r handle bytes ∈ es →
    ∃ c, g r = some c ∧ c.Stored w ∧ bytes = c.mem

/-- Where `net_Send` calls `uv_write`, the copy of its payload was granted all it needed, and
the payload's length is one for `uv_buf_init`. -/
def storable (w : ℕ) (q : Netlibuv × Copies) : Act → Prop
  | .write t _ => ∀ r c, q.1.netSend t = .filled r → q.2 r = some c →
      c.Granted w ∧ c.mem.length < 2 ^ w ∧ c.mem.length < 2 ^ 32
  | _ => True

/-- A record taken is empty; one filled is as its `readmem` left it. -/
structure StoreInv (w : ℕ) (s : Netlibuv) (g : Copies) : Prop where
  obtained : ∀ t x p, s.netSend t = .obtained x p → (s.send x).buffer.datalen = 0
  filled : ∀ t x, s.netSend t = .filled x → ∃ c, g x = some c ∧
    c.Leaves w (s.send x).buffer ∧ (s.send x).uvBuf =
      uvBufInit ((s.send x).buffer.pbuffer.map Block.addr) (s.send x).buffer.datalen

theorem StoreInv.of_calls (hi : StoreInv w s g) (hs : s'.send = s.send)
    (ho : ∀ t x p, s'.netSend t = .obtained x p → s.netSend t = .obtained x p)
    (hf : ∀ t x, s'.netSend t = .filled x → s.netSend t = .filled x) : StoreInv w s' g := by
  constructor
  case obtained =>
    intro t x p hn
    rw [hs]
    exact hi.obtained t x p (ho t x p hn)
  case filled =>
    intro t x hn
    rw [hs]
    exact hi.filled t x (hf t x hn)

theorem StoreInv.of_update (hi : StoreInv w s g) {c : NetSend} (hs : s'.send = s.send)
    (hn : s'.netSend = update s.netSend t c) (ho : ∀ x p, c ≠ .obtained x p)
    (hf : ∀ x, c ≠ .filled x) : StoreInv w s' g := by
  apply hi.of_calls hs
  · intro u x p hu
    rw [hn] at hu
    exact (Update.of_update (ho x p) hu).2
  · intro u x hu
    rw [hn] at hu
    exact (Update.of_update (hf x) hu).2

theorem StoreInv.obtain (hi : StoreInv w s g) (hp : s.PoolInv) (h : s.takeSend ma = some (r, s₁)) :
    StoreInv w { s₁ with netSend := update s.netSend t (.obtained r p) } g := by
  obtain ⟨hunused, -, -, -, hempty, hothers, -⟩ := hp.takes h
  have hne : ∀ o x, s.Holds o x → x ≠ r := fun o x ho he => hunused (he ▸ hp.held o x ho)
  constructor
  case obtained =>
    intro u x q hu
    rcases eq_or_ne u t with rfl | hut
    · obtain ⟨rfl, rfl⟩ : r = x ∧ p = q := by simpa using hu
      exact hempty
    · have hu' : s.netSend u = .obtained x q := by simpa [hut] using hu
      simpa only [hothers x (hne (.caller u) x (.inl ⟨q, hu'⟩))] using hi.obtained u x q hu'
  case filled =>
    intro u x hu
    have hu' : s.netSend u = .filled x := (Update.of_update (by simp) hu).2
    simpa only [hothers x (hne (.caller u) x (.inr hu'))] using hi.filled u x hu'

theorem StoreInv.fill (hi : StoreInv w s g) (hp : s.PoolInv) {b : Safebuffer}
    (hn : s.netSend t = .obtained r p)
    (h : (s.send r).buffer.readmem w p ma re = some (b, ok)) : StoreInv w { s with
      send := update s.send r ⟨uvBufInit (b.pbuffer.map Block.addr) b.datalen, b⟩
      netSend := update s.netSend t (.filled r) }
      (update g r (some ⟨(s.send r).buffer, p, ma, re⟩)) := by
  have hheld : s.Holds (.caller t) r := .inl ⟨p, hn⟩
  constructor
  case obtained =>
    intro u x q hu
    obtain ⟨hut, hu'⟩ := Update.of_update (by simp) hu
    have hxr := hp.ne hheld (.inl ⟨q, hu'⟩) hut
    simpa [hxr] using hi.obtained u x q hu'
  case filled =>
    intro u x hu
    rcases eq_or_ne u t with rfl | hut
    · obtain rfl : r = x := by simpa using hu
      refine ⟨_, update_self .., ⟨hi.obtained u r p hn, ok, ?_⟩, ?_⟩
      · simpa [Safebuffer.Copy.result] using h
      · simp
    · have hu' : s.netSend u = .filled x := by simpa [hut] using hu
      have hxr := hp.ne hheld (.inr hu') hut
      simpa [hxr] using hi.filled u x hu'

theorem StoreInv.step (hi : StoreInv w s g) (hp : s.PoolInv) (hs : s.step w a = some (s', es)) :
    StoreInv w s' (noteCopy s a es g) := by
  cases step_cases hs with
  | asyncRefused | asyncAccepted | asyncUnknown | asyncReturned | writeFault | writeDone =>
    exact hi.of_calls rfl (fun _ _ _ h => h) fun _ _ h => h
  | entered | written | asyncEntered => exact hi.of_update rfl rfl (by simp) (by simp)
  | obtained t ma p r s₁ hn ht => exact hi.obtain hp ht
  | filled t ma re p r b ok hn hb =>
    simpa only [noteCopy, hn] using hi.fill hp hn hb
  | writeUnknown r status buf hb hr =>
    exact (hr (hp.held .libuv r (Option.isSome_of_eq_some hb))).elim
  | socket a s' es hc =>
    rw [hc.sendsKept.eq]
    cases hc <;> exact hi.of_calls rfl (fun _ _ _ h => h) fun _ _ h => h

theorem storeInv_of_reach {q : Netlibuv × Copies} (h : (copying w).Reach (fun q => H q.1) tr q) :
    StoreInv w q.1 q.2 := by
  apply h.stateInvariant (I := fun q => StoreInv w q.1 q.2)
  · rintro ⟨s, g⟩ ⟨⟨send, asyncSend, -, hs⟩, hg⟩
    obtain rfl : s = create send asyncSend := hs
    constructor <;> simp [create]
  · intro tr q a q' es hr hi _ hs
    obtain ⟨hs', hg⟩ := System.observed_step.mp hs
    exact hg ▸ hi.step (poolInv_of_reach (hr.forget fun _ _ h => h)) hs'

/-! ## What `uv_write` gets -/

theorem written_cases {handle : Bool} {bytes : List UInt8} (hs : s.step w a = some (s', es))
    (he : .uvWrite r handle bytes ∈ es) : ∃ t err, a = .write t err ∧ s.netSend t = .filled r ∧
      bytes = (s.send r).buffer.covered (s.send r).uvBuf := by
  cases step_cases hs with
  | written t x hn =>
    obtain ⟨rfl, -, rfl⟩ : r = x ∧ handle = s.ptcpHandle ∧
        bytes = (s.send x).buffer.covered (s.send x).uvBuf := by simpa using he
    exact ⟨t, 0, rfl, hn, rfl⟩
  | writeFault t x err hn =>
    obtain ⟨rfl, -, rfl⟩ : r = x ∧ handle = s.ptcpHandle ∧
        bytes = (s.send x).buffer.covered (s.send x).uvBuf := by simpa using he
    exact ⟨t, err, rfl, hn, rfl⟩
  | socket a s' es hc => cases hc.sendsKept.events _ he
  | _ => simp at he

theorem returned_cases (hs : s.step w a = some (s', es)) (hn : s.netSend t = .filled r)
    (hn' : s'.netSend t = .idle) : ∃ err, a = .write t err := by
  have hupd : ∀ {u c}, c ≠ NetSend.idle → update s.netSend u c t = .idle → False := by
    intro u c hc hu
    cases hn.symm.trans (Update.of_update hc hu).2
  cases step_cases hs with
  | written u x =>
    rcases eq_or_ne t u with rfl | htu
    · exact ⟨0, rfl⟩
    · cases hn.symm.trans ((update_of_ne htu ..).symm.trans hn')
  | entered | obtained | filled | asyncEntered => exact (hupd (by simp) hn').elim
  | asyncRefused | asyncAccepted | asyncUnknown | asyncReturned | writeDone | writeUnknown
  | writeFault => cases hn.symm.trans hn'
  | socket a s' es hc =>
    have hkept : s'.netSend = s.netSend := by rw [hc.sendsKept.eq]
    cases hn.symm.trans (hkept ▸ hn')

/-- No `net_Send` reports success for a payload that it has not stored, none such is written,
and what is written is the payload. -/
def SendsHonest (w : ℕ) (H : Netlibuv → Act → Prop) : Prop :=
  ∀ tr q a q' es, (copying w).Reach (fun q => H q.1) tr q → H q.1 a →
    (copying w).step q a = some (q', es) → Honest w q.2 q.1 q'.1 es

theorem uvWrite_of_write {err : ℤ} (hs : s.step w (.write t err) = some (s', es))
    (hn : s.netSend t = .filled r) :
    .uvWrite r s.ptcpHandle ((s.send r).buffer.covered (s.send r).uvBuf) ∈ es := by
  cases step_cases hs with
  | written _ x hx | writeFault _ x _ hx =>
    obtain rfl := NetSend.filled.inj (hn.symm.trans hx)
    exact List.mem_cons_self
  | socket _ _ _ hc => cases hc

/-- `net_Send` is honest in exactly the runs in which the copies of the payloads that are
written were granted all they needed, and their lengths fit. -/
theorem sendsHonest_iff (w : ℕ) (H : Netlibuv → Act → Prop) :
    SendsHonest w H ↔ (copying w).Always (fun q => H q.1) (storable w) := by
  constructor
  · rintro h tr ⟨s, g⟩ a ⟨s', g'⟩ es hr hg hs
    cases a with
    | write t err =>
      intro r c hn hc
      have hs' : s.step w (.write t err) = some (s', es) := (System.observed_step.mp hs).1
      have he := uvWrite_of_write hs' hn
      obtain ⟨d, hd, hstored, hbytes⟩ := (h tr _ _ _ es hr hg hs).written _ _ _ he
      obtain rfl := Option.some.inj (hd.symm.trans hc)
      obtain ⟨d', hd', hl, hbuf⟩ := (storeInv_of_reach hr).filled t r hn
      obtain rfl := Option.some.inj (hd'.symm.trans hc)
      refine ⟨hl.stored_iff.mp hstored, (hl.covered_iff hstored).mp ?_⟩
      rw [← hbuf]
      exact hbytes
    | _ => trivial
  · rintro h tr ⟨s, g⟩ a ⟨s', g'⟩ es hr hg hs
    have hs' : s.step w a = some (s', es) := (System.observed_step.mp hs).1
    have hi := storeInv_of_reach hr
    have hc := h tr _ a _ es hr hg hs
    constructor
    · intro t r hn hn'
      obtain ⟨err, rfl⟩ := returned_cases hs' hn hn'
      obtain ⟨c, hgr, hl, -⟩ := hi.filled t r hn
      exact ⟨c, hgr, hl.stored_iff.mpr (hc r c hn hgr).1⟩
    · intro r handle bytes he
      obtain ⟨t, err, rfl, hn, rfl⟩ := written_cases hs' he
      obtain ⟨c, hgr, hl, hbuf⟩ := hi.filled t r hn
      obtain ⟨hgranted, hlen⟩ := hc r c hn hgr
      have hstored := hl.stored_iff.mpr hgranted
      refine ⟨c, hgr, hstored, ?_⟩
      rw [hbuf]
      exact (hl.covered_iff hstored).mpr hlen

end UvWrapper.Netlibuv
