import UvWrapper.Connect.Transfers

/-! # Send records that are lost

`wirteData` puts its record into `m_mapSend` before it calls `AddReq`, and only the write
callback takes it out. As long as every write gets as far as `uv_write` the pool is exact;
a refused request and a `tcpWrite` that returns early each leave a record behind for good.
-/

namespace UvWrapper.Uvconnect

open Memory Ownership Transition

variable {w : ℕ} {s s' : Uvconnect} {a : Act} {es : List Event} {G : Uvconnect → Act → Prop}

/-- `m_mapSend` holds the records of calls of `wirteData`, of pending requests and of
writes in progress, and no others; when there are none of these, every record is free. -/
structure SendPoolExact (s : Uvconnect) : Prop where
  used : ∀ r, r ∈ s.mapSend ↔ ∃ o, s.Holds o r
  free : (∀ o r, ¬ s.Holds o r) → s.mapSend = ∅ ∧ ∀ r < s.created, r ∈ s.dSend

/-- In the runs whose steps satisfy `G` the pool of send records is exact. -/
def NoLeak (w : ℕ) (G : Uvconnect → Act → Prop) : Prop :=
  ∀ tr s, (connection w).Reach (fun s a => dutiful s a ∧ G s a) tr s → s.SendPoolExact

theorem PoolInv.exact (hp : s.PoolInv) (hused : ∀ r ∈ s.mapSend, ∃ o, s.Holds o r) :
    s.SendPoolExact := by
  refine ⟨fun r => ⟨hused r, fun ⟨o, ho⟩ => hp.held o r ho⟩, fun hno => ?_⟩
  have hempty : s.mapSend = ∅ := Finset.eq_empty_of_forall_notMem fun r hr => by
    obtain ⟨o, ho⟩ := hused r hr
    exact hno o r ho
  refine ⟨hempty, fun r hr => ?_⟩
  rcases (hp.known r).mpr hr with h | h
  · exact h
  · have hm : r ∈ s.mapSend := h
    simp [hempty] at hm

/-- The pool stays exact in the steps that keep their record, and in no others. -/
theorem HolderMove.exact_iff (hm : HolderMove s a s' es)
    (hused : ∀ r, r ∈ s.mapSend ↔ ∃ o, s.Holds o r) :
    (∀ r ∈ s'.mapSend, ∃ o, s'.Holds o r) ↔ s.keepsRecord a := by
  have hpass : ∀ {i j : Holder} {r : ℕ}, s.Holds i r → Reassigned s.Holds r (some j) s'.Holds →
      ∀ x ∈ s.mapSend, ∃ o, s'.Holds o x := by
    intro i j r hh hr x hx
    rw [hr.held_iff]
    rcases eq_or_ne x r with rfl | hxr
    · exact .inl ⟨rfl, rfl⟩
    · exact .inr ⟨hxr, (hused x).mp hx⟩
  have hlost : ∀ {i : Holder} {r : ℕ}, s.Holds i r → Reassigned s.Holds r none s'.Holds →
      s'.mapSend = s.mapSend → ¬ ∀ x ∈ s'.mapSend, ∃ o, s'.Holds o x := by
    intro i r hh hr hmap h
    obtain ⟨o, ho⟩ := h r (hmap ▸ (hused r).mpr ⟨i, hh⟩)
    cases (hr.owner o).mp ho
  cases hm with
  | same hk hiff hmap =>
    refine iff_of_true (fun x hx => ?_) hk
    obtain ⟨o, ho⟩ := (hused x).mp (hmap ▸ hx)
    exact ⟨o, (hiff o x).mpr ho⟩
  | obtain t r hk _ hr hmap =>
    refine iff_of_true (fun x hx => ?_) hk
    rw [hr.held_iff]
    rcases eq_or_ne x r with rfl | hxr
    · exact .inl ⟨rfl, rfl⟩
    · rw [hmap, Finset.mem_insert] at hx
      exact .inr ⟨hxr, (hused x).mp (hx.resolve_left hxr)⟩
  | accept _ _ _ hk hh hr hmap => exact iff_of_true (hmap ▸ hpass hh hr) hk
  | pass _ _ _ hk hh _ _ hr hmap => exact iff_of_true (hmap ▸ hpass hh hr) hk
  | refuse _ _ _ hk hh hr hmap => exact iff_of_false (hlost hh hr hmap) hk
  | giveUp r err ha hc hh hr hmap =>
    apply iff_of_false (hlost hh hr hmap)
    intro hk
    subst ha
    exact absurd (hc.symm.trans (hk r hh)) Bool.false_ne_true
  | complete r status hk _ hr hmap =>
    refine iff_of_true (fun x hx => ?_) hk
    rw [hmap, Finset.mem_erase] at hx
    rw [hr.held_iff]
    exact .inr ⟨hx.1, (hused x).mp hx.2⟩

theorem keepsRecord_of_noLeak (h : NoLeak w G) :
    (connection w).Always (fun s a => dutiful s a ∧ G s a) keepsRecord := by
  intro tr s a s' es hr hg hs
  have hi := accounted_of_reach (fun _ _ hg => hg.1) hr
  exact ((hi.move hg.1 hs).exact_iff (h tr s hr).used).mp
    fun r hm => ((h _ s' (hr.step hg hs)).used r).mp hm

/-- The pool of send records is exact in every state exactly if each request to write is
accepted and each `tcpWrite` finds the connection established. -/
theorem noLeak_iff (w : ℕ) (G : Uvconnect → Act → Prop) :
    NoLeak w G ↔ (connection w).Always (fun s a => dutiful s a ∧ G s a) keepsRecord := by
  refine ⟨keepsRecord_of_noLeak, fun h tr s hr => ?_⟩
  refine hr.stateInvariant (I := SendPoolExact) ?_ ?_
  · rintro s ⟨garbage, send, rfl⟩
    exact (accounted_create garbage send).pool.exact (by simp [create])
  · intro tr s a s' es hr hi hg hs
    have ha := accounted_of_reach (fun _ _ hg => hg.1) hr
    apply (ha.step hg.1 hs).pool.exact
    exact ((ha.move hg.1 hs).exact_iff hi.used).mpr (h tr s a s' es hr hg hs)

/-- Five requests are pending when `wirteData` is called: it returns false, and its record
stays in `m_mapSend`. -/
theorem not_noLeak : ¬ NoLeak 64 fun _ _ => True := by
  intro hexact
  let ok : Answer := ⟨true, 1, fun _ => 0⟩
  obtain ⟨tr, s, hr, hp⟩ := System.exists_run_of_exec (M := connection 64) (G := assumed 64)
    (s := accepted)
    ((List.replicate 5 [.request 1 .stopReadData, .addReq 1, .lock 1]).flatten ++
      [.wirteData 1 [7], .takeSend 1 ok, .readmem 1 ok ok, .addReq 1])
    (p := fun s _ => decide (s.threads.call 1 = .locking (.addReq .tcpWrite (some (.tcpWrite 0))) ∧
      s.threads.loop.dAsync = [] ∧ ((connection 64).step s (.lock 1)).map Prod.snd =
        some [.loop (.refused .busy), .returned 1 (.tcpWrite 0) .busy])) (by decide +kernel)
  obtain ⟨hc, hd, hm⟩ := of_decide_eq_true hp
  obtain ⟨⟨s', es⟩, hs, -⟩ := Option.map_eq_some_iff.mp hm
  have hreach : (connection 64).Reach (fun s a => dutiful s a ∧ True) tr s :=
    (reach_accepted.trans hr).mono fun _ _ hg => ⟨hg.dutiful, trivial⟩
  have hk := keepsRecord_of_noLeak hexact tr s (.lock 1) s' es hreach
    ⟨⟨trivial, trivial⟩, trivial⟩ hs
  exact hk 0 (.inr (.inr ⟨_, hc⟩)) hd

end UvWrapper.Uvconnect
