import UvWrapper.Lib.Ownership
import UvWrapper.Lib.Update
import UvWrapper.Netlib.Steps

/-! # Who holds a write record

A record is in `m_mapSend` from the `net_Send` that takes it until its `write_cb`. In between one
party holds it, the calling thread or libuv. This does not depend on what is stored in it, nor on
whether that could be stored.
-/

namespace UvWrapper.Netlibuv

open Function Memory Ownership Recycling

variable {w : ℕ} {s s' s₁ : Netlibuv} {a : Act} {es tr : List Event} {t r x : ℕ}
  {p : List UInt8} {ma : Answer} {o : Holder}

inductive Holder
  | caller (t : ℕ)
  | libuv

/-- Who holds a record: the thread whose `net_Send` has taken it, then libuv. -/
def Holds (s : Netlibuv) : Holder → ℕ → Prop
  | .caller t, x => (∃ p, s.netSend t = .obtained x p) ∨ s.netSend t = .filled x
  | .libuv, x => (s.writing x).isSome

/-! ## What the steps do to the holders -/

theorem holds_of_enter (ho : Holds { s with netSend := update s.netSend t (.entered p) } o x) :
    s.Holds o x := by
  cases o with
  | libuv => exact ho
  | caller u =>
    rcases eq_or_ne u t with rfl | hut
    · simp [Holds] at ho
    · simpa [Holds, hut] using ho

theorem holds_of_obtain (hw : s₁.writing = s.writing)
    (ho : Holds { s₁ with netSend := update s.netSend t (.obtained r p) } o x) :
    (o = .caller t ∧ x = r) ∨ s.Holds o x := by
  cases o with
  | libuv => exact .inr (by simpa [Holds, hw] using ho)
  | caller u =>
    rcases eq_or_ne u t with rfl | hut
    · have hx : r = x := by simpa [Holds] using ho
      exact .inl ⟨rfl, hx.symm⟩
    · exact .inr (by simpa [Holds, hut] using ho)

theorem holds_of_fill {st : Sendst} (hn : s.netSend t = .obtained r p)
    (ho : Holds { s with
      send := update s.send r st
      netSend := update s.netSend t (.filled r) } o x) : s.Holds o x := by
  cases o with
  | libuv => exact ho
  | caller u =>
    rcases eq_or_ne u t with rfl | hut
    · obtain rfl : r = x := by simpa [Holds] using ho
      exact .inl ⟨p, hn⟩
    · simpa [Holds, hut] using ho

theorem holds_of_write {buf : UvBuf} (ho : Holds { s with
      writing := update s.writing r (some buf)
      netSend := update s.netSend t .idle } o x) :
    (o = .libuv ∧ x = r) ∨ (s.Holds o x ∧ ¬ (o = .caller t ∧ x = r)) := by
  cases o with
  | libuv =>
    rcases eq_or_ne x r with rfl | hxr
    · exact .inl ⟨rfl, rfl⟩
    · exact .inr ⟨by simpa [Holds, hxr] using ho, by simp⟩
  | caller u =>
    rcases eq_or_ne u t with rfl | hut
    · simp [Holds] at ho
    · exact .inr ⟨by simpa [Holds, hut] using ho, by simp [hut]⟩

theorem holds_of_recycle {d : List ℕ} {m : Finset ℕ} (hex : Exclusive s.Holds)
    (hw : (s.writing r).isSome) (ho : Holds { s with
      writing := update s.writing r none
      dSend := d
      mapSend := m } o x) : s.Holds o x ∧ x ≠ r := by
  cases o with
  | libuv =>
    rcases eq_or_ne x r with rfl | hxr
    · simp [Holds] at ho
    · exact ⟨by simpa [Holds, hxr] using ho, hxr⟩
  | caller u =>
    have ho' : s.Holds (.caller u) x := ho
    have hheld : s.Holds .libuv r := hw
    refine ⟨ho', ?_⟩
    rintro rfl
    cases hex _ _ _ ho' hheld

/-! ## The pool -/

/-- The records are those in the pool, and each has at most one holder, which has taken it. -/
structure PoolInv (s : Netlibuv) : Prop where
  pool : s.sendPool.WellFormed
  known : ∀ x, s.sendPool.Knows x ↔ x < s.created
  held : ∀ o x, s.Holds o x → x ∈ s.mapSend
  exclusive : Exclusive s.Holds

theorem poolInv_create (send : ℕ → Sendst) (asyncSend : ℕ → Safebuffer) :
    PoolInv (create send asyncSend) := by
  have hno : ∀ o x, ¬ (create send asyncSend).Holds o x := by
    intro o x ho
    cases o <;> simp [Holds, create] at ho
  constructor
  case pool => exact ⟨List.nodup_nil, fun x hx => by cases hx⟩
  case known => simp [Pool.Knows, sendPool, create]
  case held => exact fun o x ho => (hno o x ho).elim
  case exclusive => exact fun i j x ho => (hno i x ho).elim

theorem PoolInv.drop (hi : s.PoolInv) (hd : s'.dSend = s.dSend) (hm : s'.mapSend = s.mapSend)
    (hc : s'.created = s.created) (hsub : ∀ o x, s'.Holds o x → s.Holds o x) : s'.PoolInv := by
  have hpool : s'.sendPool = s.sendPool := by simp only [sendPool, hd, hm]
  constructor
  case pool => rw [hpool]; exact hi.pool
  case known => rw [hpool, hc]; exact hi.known
  case held =>
    intro o x ho
    rw [hm]
    exact hi.held o x (hsub o x ho)
  case exclusive => exact hi.exclusive.drop hsub

theorem PoolInv.of_eq (hi : s.PoolInv) (hd : s'.dSend = s.dSend) (hm : s'.mapSend = s.mapSend)
    (hc : s'.created = s.created) (hw : s'.writing = s.writing)
    (hn : s'.netSend = s.netSend) : s'.PoolInv := by
  apply hi.drop hd hm hc
  intro o x ho
  cases o <;> simpa only [Holds, hw, hn] using ho

theorem PoolInv.takes (hi : s.PoolInv) (h : s.takeSend ma = some (r, s₁)) :
    r ∉ s.mapSend ∧ s₁.mapSend = insert r s.mapSend ∧ s₁.sendPool.WellFormed ∧
      (∀ x, s₁.sendPool.Knows x ↔ x < s₁.created) ∧ (s₁.send r).buffer.datalen = 0 ∧
      (∀ x, x ≠ r → s₁.send x = s.send x) ∧ s₁.writing = s.writing := by
  rcases takeSend_cases h with ⟨b, -, hb, rfl, rfl⟩ | ⟨rest, hd, rfl⟩
  · have hnew : ¬ s.sendPool.Knows s.created := fun hx =>
      absurd ((hi.known _).mp hx) (Nat.lt_irrefl _)
    have hknows : ∀ x, (s.sendPool.create s.created).Knows x ↔ x < s.created + 1 := by
      intro x
      rw [Pool.knows_create, hi.known x]
      omega
    obtain ⟨blk, -, rfl⟩ := Option.map_eq_some_iff.mp hb
    exact ⟨fun hx => hnew (.inr hx), rfl, hi.pool.create fun hx => hnew (.inl hx), hknows,
      by simp, fun x hx => update_of_ne hx .., rfl⟩
  · have htake : s.sendPool.take = some (r, ⟨rest, insert r s.mapSend⟩) := by
      simp [Pool.take, sendPool, hd]
    exact ⟨hi.pool.not_busy_of_take htake, rfl, hi.pool.take htake,
      fun x => (Pool.knows_take htake).trans (hi.known x), by simp [Safebuffer.clearMem],
      fun x hx => update_of_ne hx .., rfl⟩

theorem PoolInv.obtain (hi : s.PoolInv) (h : s.takeSend ma = some (r, s₁)) :
    PoolInv { s₁ with netSend := update s.netSend t (.obtained r p) } := by
  obtain ⟨hunused, hmap, hpool, hknown, -, -, hwriting⟩ := hi.takes h
  have hsub : ∀ o x, Holds { s₁ with netSend := update s.netSend t (.obtained r p) } o x →
      (o = .caller t ∧ x = r) ∨ s.Holds o x := fun _ _ => holds_of_obtain hwriting
  constructor
  case pool => exact hpool
  case known => exact hknown
  case held =>
    intro o x ho
    rw [hmap, Finset.mem_insert]
    exact (hsub o x ho).imp And.right (hi.held o x)
  case exclusive => exact hi.exclusive.acquire (fun o ho => hunused (hi.held o r ho)) hsub

theorem PoolInv.write (hi : s.PoolInv) (hn : s.netSend t = .filled r) : PoolInv { s with
      writing := update s.writing r (some (s.send r).uvBuf)
      netSend := update s.netSend t .idle } := by
  have hheld : s.Holds (.caller t) r := .inr hn
  constructor
  case pool => exact hi.pool
  case known => exact hi.known
  case held =>
    intro o x ho
    rcases holds_of_write ho with ⟨-, rfl⟩ | ⟨ho, -⟩
    · exact hi.held _ _ hheld
    · exact hi.held o x ho
  case exclusive => exact hi.exclusive.give hheld fun _ _ => holds_of_write

theorem PoolInv.recycle (hi : s.PoolInv) (hw : (s.writing r).isSome) (hr : r ∈ s.mapSend) :
    PoolInv { s with
      writing := update s.writing r none
      dSend := s.dSend ++ [r]
      mapSend := s.mapSend.erase r } := by
  have hrec : s.sendPool.recycle r = some ⟨s.dSend ++ [r], s.mapSend.erase r⟩ :=
    Pool.recycle_of_mem hr
  constructor
  case pool => exact hi.pool.recycle hrec
  case known => exact fun x => (Pool.knows_recycle hrec).trans (hi.known x)
  case held =>
    intro o x ho
    obtain ⟨ho, hxr⟩ := holds_of_recycle hi.exclusive hw ho
    exact Finset.mem_erase.mpr ⟨hxr, hi.held o x ho⟩
  case exclusive =>
    exact hi.exclusive.drop fun o x ho => (holds_of_recycle hi.exclusive hw ho).1

theorem PoolInv.step (hi : s.PoolInv) (hs : s.step w a = some (s', es)) : s'.PoolInv := by
  cases step_cases hs with
  | asyncRefused | asyncAccepted | asyncUnknown | asyncReturned | writeFault =>
    exact hi.of_eq rfl rfl rfl rfl rfl
  | entered t p | asyncEntered i => exact hi.drop rfl rfl rfl fun _ _ => holds_of_enter
  | obtained t ma p r s₁ _ ht => exact hi.obtain ht
  | filled t ma re p r b ok hn => exact hi.drop rfl rfl rfl fun _ _ => holds_of_fill hn
  | written t r hn => exact hi.write hn
  | writeDone r status buf hb hr => exact hi.recycle (Option.isSome_of_eq_some hb) hr
  | writeUnknown r status buf hb hr =>
    exact (hr (hi.held .libuv r (Option.isSome_of_eq_some hb))).elim
  | socket a s' es hc =>
    rw [hc.sendsKept.eq]
    exact hi.of_eq rfl rfl rfl rfl rfl

theorem poolInv_of_reach {G : Netlibuv → Act → Prop} (h : (netlib w).Reach G tr s) :
    s.PoolInv := by
  apply h.stateInvariant (I := PoolInv)
  · rintro s ⟨send, asyncSend, -, rfl⟩
    exact poolInv_create send asyncSend
  · exact fun tr s a s' es _ hi _ hs => hi.step hs

theorem PoolInv.ne (hi : s.PoolInv) {u : ℕ} (hr : s.Holds (.caller t) r)
    (hx : s.Holds (.caller u) x) (hut : u ≠ t) : x ≠ r := by
  rintro rfl
  exact hut (Holder.caller.inj (hi.exclusive _ _ _ hx hr))

end UvWrapper.Netlibuv
