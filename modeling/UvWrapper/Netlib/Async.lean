import UvWrapper.Netlib.Steps

/-! # The async handles run out

`net_AsyncSend` moves a handle from `m_dAsyncSend` to `m_mapAsyncSend`, and nothing moves it
back: where `write_cb` recycles its record, `async_cb` leaves the handle in the map. The
handles are accounted for exactly as long as no `async_cb` of a send has returned.
-/

namespace UvWrapper.Netlibuv

open Function Memory Recycling Transition

variable {w : ℕ} {s s' : Netlibuv} {a : Act} {es tr : List Event} {i : ℕ}

/-- Every handle is in exactly one of the two containers, in the map exactly while its send is
pending or processed, and where none is, `net_AsyncSend` takes the next payload. -/
structure HandlesReturned (w : ℕ) (s : Netlibuv) : Prop where
  exactlyOne : s.dAsyncSend.Nodup ∧
    ∀ i < asyncHandleNum, Xor (i ∈ s.dAsyncSend) (i ∈ s.mapAsyncSend)
  busy : ∀ i, i ∈ s.mapAsyncSend ↔ i ∈ s.asyncPending ∨ s.asyncCb = some i
  accepts : s.asyncPending = ∅ → s.asyncCb = none → ∀ pBuffer ma re, ma.ok = true →
    ∃ s' es, s.netAsyncSend w pBuffer ma re = some (s', true, es)

/-- A handle in the map is pending, or processed, or its callback has returned. -/
structure AsyncInv (tr : List Event) (s : Netlibuv) : Prop where
  pool : s.asyncPool.WellFormed
  known : ∀ i, s.asyncPool.Knows i ↔ i < asyncHandleNum
  pending : ∀ i ∈ s.asyncPending, i ∈ s.mapAsyncSend
  current : ∀ i, s.asyncCb = some i → i ∈ s.mapAsyncSend ∧ i ∉ s.asyncPending
  used : ∀ i ∈ s.mapAsyncSend, i ∈ s.asyncPending ∨ s.asyncCb = some i ∨ .asyncReturned i ∈ tr
  returned : ∀ i, .asyncReturned i ∈ tr →
    i ∈ s.mapAsyncSend ∧ i ∉ s.asyncPending ∧ s.asyncCb ≠ some i

theorem asyncInv_create (send : ℕ → Sendst) (asyncSend : ℕ → Safebuffer) :
    AsyncInv [] (create send asyncSend) := by
  constructor
  case pool => exact ⟨List.nodup_range, fun i _ => Finset.notMem_empty i⟩
  case known => simp [Pool.Knows, asyncPool, create]
  case pending => simp [create]
  case current => simp [create]
  case used => simp [create]
  case returned => simp

theorem AsyncInv.of_eq (hi : AsyncInv tr s) (hd : s'.dAsyncSend = s.dAsyncSend)
    (hm : s'.mapAsyncSend = s.mapAsyncSend) (hp : s'.asyncPending = s.asyncPending)
    (hc : s'.asyncCb = s.asyncCb) (he : ∀ i, .asyncReturned i ∉ es) : AsyncInv (tr ++ es) s' := by
  have hq : s'.asyncPool = s.asyncPool := by simp only [asyncPool, hd, hm]
  have hret : ∀ i, .asyncReturned i ∈ tr ++ es ↔ .asyncReturned i ∈ tr := by simp [he]
  constructor
  case pool => rw [hq]; exact hi.pool
  case known => rw [hq]; exact hi.known
  case pending => rw [hm, hp]; exact hi.pending
  case current => rw [hm, hp, hc]; exact hi.current
  case used => simpa only [hm, hp, hc, hret] using hi.used
  case returned => simpa only [hm, hp, hc, hret] using hi.returned

theorem AsyncInv.accept (hi : AsyncInv tr s) {rest : List ℕ} {b : Safebuffer} {p : List UInt8}
    (hd : s.dAsyncSend = i :: rest) : AsyncInv (tr ++ [.asyncAccepted i p]) { s with
      dAsyncSend := rest
      mapAsyncSend := insert i s.mapAsyncSend
      asyncSend := update s.asyncSend i b
      asyncPending := insert i s.asyncPending } := by
  have htake : s.asyncPool.take = some (i, ⟨rest, insert i s.mapAsyncSend⟩) := by
    simp [Pool.take, asyncPool, hd]
  have hfree : i ∉ s.mapAsyncSend := hi.pool.not_busy_of_take htake
  have hret : ∀ j, .asyncReturned j ∈ tr ++ [.asyncAccepted i p] ↔ .asyncReturned j ∈ tr := by
    simp
  constructor
  case pool => exact hi.pool.take htake
  case known => exact fun j => (Pool.knows_take htake).trans (hi.known j)
  case pending =>
    intro j hj
    rcases Finset.mem_insert.mp hj with rfl | hj
    · exact Finset.mem_insert_self ..
    · exact Finset.mem_insert_of_mem (hi.pending j hj)
  case current =>
    intro j hj
    obtain ⟨hm, hp⟩ := hi.current j hj
    have hji : j ≠ i := fun he => hfree (he ▸ hm)
    exact ⟨Finset.mem_insert_of_mem hm, by simp [hji, hp]⟩
  case used =>
    intro j hj
    rw [hret]
    rcases Finset.mem_insert.mp hj with rfl | hj
    · exact .inl (Finset.mem_insert_self ..)
    · exact (hi.used j hj).imp_left fun h => Finset.mem_insert_of_mem h
  case returned =>
    intro j hj
    obtain ⟨hm, hp, hc⟩ := hi.returned j ((hret j).mp hj)
    have hji : j ≠ i := fun he => hfree (he ▸ hm)
    exact ⟨Finset.mem_insert_of_mem hm, by simp [hji, hp], hc⟩

theorem AsyncInv.enter (hi : AsyncInv tr s) {n : ℕ → NetSend} (hc : s.asyncCb = none)
    (hp : i ∈ s.asyncPending) : AsyncInv (tr ++ [.asyncEntered i]) { s with
      asyncPending := s.asyncPending.erase i
      asyncCb := some i
      netSend := n } := by
  have hret : ∀ j, .asyncReturned j ∈ tr ++ [.asyncEntered i] ↔ .asyncReturned j ∈ tr := by simp
  constructor
  case pool => exact hi.pool
  case known => exact hi.known
  case pending => exact fun j hj => hi.pending j (Finset.mem_of_mem_erase hj)
  case current =>
    intro j hj
    obtain rfl := Option.some.inj hj
    exact ⟨hi.pending i hp, Finset.notMem_erase _ _⟩
  case used =>
    intro j hj
    rw [hret]
    rcases eq_or_ne j i with rfl | hji
    · exact .inr (.inl rfl)
    · rcases hi.used j hj with h | h | h
      · exact .inl (Finset.mem_erase.mpr ⟨hji, h⟩)
      · simp [hc] at h
      · exact .inr (.inr h)
  case returned =>
    intro j hj
    obtain ⟨hm, hn, -⟩ := hi.returned j ((hret j).mp hj)
    have hji : j ≠ i := fun he => hn (he ▸ hp)
    exact ⟨hm, fun h => hn (Finset.mem_of_mem_erase h), fun h => hji (Option.some.inj h).symm⟩

theorem AsyncInv.leave (hi : AsyncInv tr s) (hc : s.asyncCb = some i) :
    AsyncInv (tr ++ [.asyncReturned i]) { s with asyncCb := none } := by
  constructor
  case pool => exact hi.pool
  case known => exact hi.known
  case pending => exact hi.pending
  case current => exact fun j hj => by cases hj
  case used =>
    intro j hj
    rcases hi.used j hj with h | h | h
    · exact .inl h
    · obtain rfl := Option.some.inj (hc.symm.trans h)
      exact .inr (.inr (by simp))
    · exact .inr (.inr (List.mem_append_left _ h))
  case returned =>
    intro j hj
    rcases List.mem_append.mp hj with hj | hj
    · obtain ⟨hm, hp, -⟩ := hi.returned j hj
      exact ⟨hm, hp, by simp⟩
    · obtain rfl : j = i := by simpa using hj
      obtain ⟨hm, hp⟩ := hi.current j hc
      exact ⟨hm, hp, by simp⟩

theorem AsyncInv.step (hi : AsyncInv tr s) (hs : s.step w a = some (s', es)) :
    AsyncInv (tr ++ es) s' := by
  cases step_cases hs with
  | asyncRefused | entered | filled | written | writeFault | writeDone | writeUnknown =>
    exact hi.of_eq rfl rfl rfl rfl (by simp)
  | asyncAccepted t p ma re i rest b ok hd => exact hi.accept hd
  | obtained t ma p r s₁ _ ht =>
    rw [takeSend_frame ht]
    exact hi.of_eq rfl rfl rfl rfl (by simp)
  | asyncEntered i hl hp => exact hi.enter hl.2 hp
  | asyncUnknown i hp hm => exact (hm (hi.pending i hp)).elim
  | asyncReturned i hc => exact hi.leave hc
  | socket a s' es hc =>
    obtain ⟨he, hev⟩ := hc.sendsKept
    rw [he]
    exact hi.of_eq rfl rfl rfl rfl fun i hm => by cases hev _ hm

theorem asyncInv_of_reach (h : (netlib w).Reach (anyStep _ _) tr s) : AsyncInv tr s := by
  refine h.invariant (I := AsyncInv) ?_ fun tr s a s' es _ hi _ hs => hi.step hs
  rintro s ⟨send, asyncSend, -, rfl⟩
  exact asyncInv_create send asyncSend

theorem AsyncInv.accepts (hi : AsyncInv tr s) (hm : s.mapAsyncSend = ∅) {p : List UInt8}
    {ma : Answer} (re : Answer) (hok : ma.ok = true) :
    ∃ s' es, s.netAsyncSend w p ma re = some (s', true, es) := by
  have hmem : 0 ∈ s.dAsyncSend :=
    ((hi.known 0).mpr (by decide)).resolve_right (by simp [asyncPool, hm])
  obtain ⟨j, rest, hd⟩ := List.exists_cons_of_ne_nil (List.ne_nil_of_mem hmem)
  obtain ⟨b, ok, hb⟩ :=
    Safebuffer.readmem_isSome (w := w) (s.asyncSend j).clearMem p re hok
  simp only [netAsyncSend, hd, hb, Option.map_some]
  exact ⟨_, _, rfl⟩

/-- The handles are accounted for exactly until the first `async_cb` of a send returns. -/
theorem handlesReturned_iff (h : (netlib w).Reach (anyStep _ _) tr s) :
    HandlesReturned w s ↔ ∀ i, .asyncReturned i ∉ tr := by
  have hi := asyncInv_of_reach h
  constructor
  · intro hr i hm
    obtain ⟨hb, hp, hc⟩ := hi.returned i hm
    exact ((hr.busy i).mp hb).elim hp hc
  · intro hn
    have hbusy : ∀ i, i ∈ s.mapAsyncSend ↔ i ∈ s.asyncPending ∨ s.asyncCb = some i := by
      intro i
      constructor
      · intro hm
        rcases hi.used i hm with h | h | h
        · exact .inl h
        · exact .inr h
        · exact (hn i h).elim
      · rintro (hp | hc)
        · exact hi.pending i hp
        · exact (hi.current i hc).1
    refine ⟨⟨hi.pool.nodup, ?_⟩, hbusy, ?_⟩
    · intro i hlt
      rcases (hi.known i).mpr hlt with hf | hb
      · exact .inl ⟨hf, hi.pool.disjoint i hf⟩
      · exact .inr ⟨hb, fun hf => hi.pool.disjoint i hf hb⟩
    · intro hp hc p ma re hok
      refine hi.accepts (Finset.eq_empty_of_forall_notMem fun i hm => ?_) re hok
      simp [hbusy i, hp, hc] at hm

def asyncRound (i r : ℕ) : List Act :=
  let ok : Answer := ⟨true, 100, fun _ => 0⟩
  [.netAsyncSend 1 [7] ok ok, .asyncEnter i, .takeSend 0 ok, .fill 0 ok ok, .write 0 0,
    .asyncReturn, .writeCb r 0]

/-- One send is pending. -/
theorem handlesReturned_iff_example : ∃ tr s, (netlib 64).Reach (anyStep _ _) tr s ∧
    s.asyncPending = {0} ∧ HandlesReturned 64 s := by
  let ok : Answer := ⟨true, 100, fun _ => 0⟩
  obtain ⟨tr, s, hr, hp⟩ := System.exists_run_of_exec (M := netlib 64) (G := anyStep _ _)
    (s := fresh) [.netAsyncSend 1 [7] ok ok]
    (p := fun s tr => decide (s.asyncPending = {0} ∧ tr = [.asyncAccepted 0 [7]]))
    (by decide +kernel)
  obtain ⟨hpend, rfl⟩ := of_decide_eq_true hp
  have h : (netlib 64).Reach (anyStep _ _) [.asyncAccepted 0 [7]] s := ⟨_, init_fresh, hr⟩
  exact ⟨_, s, h, hpend, (handlesReturned_iff h).mpr (by simp)⟩

/-- Five sends are made and written, and the next one is refused. -/
theorem not_handlesReturned :
    ¬ ∀ tr s, (netlib 64).Reach (anyStep _ _) tr s → HandlesReturned 64 s := by
  obtain ⟨tr, s, hr, hp⟩ := System.exists_run_of_exec (M := netlib 64) (G := anyStep _ _)
    (s := fresh)
    (.netConnect 0 :: .connectCb 0 ::
      (asyncRound 0 0 ++ asyncRound 1 0 ++ asyncRound 2 0 ++ asyncRound 3 0 ++ asyncRound 4 0))
    (p := fun s _ => decide (s.asyncPending = ∅ ∧ s.asyncCb = none ∧ s.dAsyncSend = []))
    (by decide +kernel)
  obtain ⟨hpend, hcb, hd⟩ := of_decide_eq_true hp
  intro h
  obtain ⟨s', es, hs⟩ := (h tr s ⟨_, init_fresh, hr⟩).accepts hpend hcb [7]
    ⟨true, 1, fun _ => 0⟩ ⟨true, 1, fun _ => 0⟩ rfl
  simp [netAsyncSend, hd] at hs

end UvWrapper.Netlibuv
