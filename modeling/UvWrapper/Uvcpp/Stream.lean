import UvWrapper.Uvcpp.Growth

/-! # The byte stream across growth

As long as every growth suffices the stream is conserved, over any number of them; and a
growth that does not suffice is one after which `send` copies its payload to a place that
is not all inside a live block.
-/

namespace UvWrapper.Uvcpp

open Function Memory Transition

variable {s s' : Uvcpp} {a : Act} {es tr : List Event} {buf : List UInt8} {re ma : Answer}

/-- The lengths stay away from the limit of `unsigned int`, and one of `realloc` and `malloc`
finds memory. -/
def Supplied (s : Uvcpp) (buf : List UInt8) (re ma : Answer) : Prop :=
  buf.length + s.sendOffset < 2 ^ 31 ∧ (re.ok = true ∨ ma.ok = true)

/-- Where `send` has to grow the buffer, the growth suffices. -/
def growing (s : Uvcpp) : Act → Prop
  | .append _ buf re ma => Supplied s buf re ma ∧ GrowthSuffices s buf re
  | _ => True

instance : DecidableRel growing := fun s a =>
  match a with
  | .append _ buf re ma => inferInstanceAs (Decidable ((buf.length + s.sendOffset < 2 ^ 31 ∧
      (re.ok = true ∨ ma.ok = true)) ∧ (buf.length + s.sendOffset ≤ s.sendLen ∨
        ((re.ok = true → re.addr = s.sendBuf.addr) ∧
          (s.sendOffset + 3 * buf.length ≤ 2 * s.sendLen ∨
            (s.sendLen < buf.length ∧
              s.sendOffset + 3 * buf.length ≤ 2 * s.sendLen + 2 ^ 32))))))
  | .connect .. | .run | .setAutoReconnect _ | .insert _ | .close _ | .stop _ | .asyncSend _
  | .asyncEnter | .swap | .process _ | .asyncReturn | .connectCb _ | .readCb _ | .closeCb _
  | .asyncCloseCb | .leave => .isTrue trivial

theorem grown_sendOffset (s : Uvcpp) (buf : List UInt8) (re ma : Answer) :
    (s.grown buf re ma).sendOffset = s.sendOffset := by
  unfold grown
  split
  · exact (allocSendBuf_frame ..).1
  · rfl

theorem grown_sendLen_lt (hf : s.BufferFits) (buf : List UInt8) (re ma : Answer) :
    (s.grown buf re ma).sendLen < 2 ^ 32 := by
  unfold grown
  split
  · rw [(allocSendBuf_frame ..).2]
    exact Nat.mod_lt _ (by decide)
  · exact hf.len_lt

theorem MakesRoom.append (hf : s.BufferFits) (hs : Supplied s buf re ma)
    (hm : MakesRoom s buf re ma) :
    (s.append buf re ma).1.BufferFits ∧ (s.append buf re ma).1.sendBufLive = true ∧
      s.Flows (s.append buf re ma).2 (s.append buf re ma).1 := by
  have hoff := grown_sendOffset s buf re ma
  have hroom := hm.room
  have hblock := hm.block
  rw [hoff] at hroom
  have hfit : s.sendOffset + buf.length ≤ (s.grown buf re ma).sendBuf.bytes.length := by omega
  have hu : uint (s.sendOffset + buf.length) = s.sendOffset + buf.length :=
    Nat.mod_eq_of_lt (by have := hs.1; omega)
  have hst : (s.append buf re ma).1 = { s.grown buf re ma with
      sendBuf := { (s.grown buf re ma).sendBuf with
        bytes := memcpy (s.grown buf re ma).sendBuf.bytes s.sendOffset buf }
      sendOffset := s.sendOffset + buf.length } := by
    rw [append_eq]
    dsimp only
    rw [hoff, hu]
  rw [hm.inside, hst]
  refine ⟨⟨hroom, ?_, grown_sendLen_lt hf buf re ma⟩, hm.live, ?_⟩
  · rw [length_memcpy hfit]
    exact hblock
  · have hcopy := take_memcpy (d := (s.grown buf re ma).sendBuf.bytes) (c := buf)
      (show s.sendOffset ≤ _ by omega)
    simp only [Flows, waiting, sent, reported, List.flatMap_cons, List.flatMap_nil,
      List.append_nil, List.nil_append]
    rw [hcopy, hm.kept]

/-- The block that a growth leaves behind is not longer than the new length, or than what
waits. -/
theorem length_allocSendBuf_le {needSize : ℕ} (hf : s.BufferFits)
    (ha : re.ok = true ∨ ma.ok = true) (hr : re.ok = true → re.addr = s.sendBuf.addr) :
    (s.allocSendBuf needSize re ma).sendBuf.bytes.length ≤
      max (s.allocSendBuf needSize re ma).sendLen s.sendOffset := by
  have ho := hf.offset_le
  have hb := hf.len_le
  rw [(allocSendBuf_frame ..).2]
  unfold allocSendBuf
  generalize uint (uint (s.sendOffset + needSize) * bufferIncreaseFactor) = size
  dsimp only
  cases hok : re.ok with
  | true =>
    obtain ⟨blk, hre⟩ := realloc_ok (p := some s.sendBuf) (n := size) hok
    have haddr : blk.addr = s.sendBuf.addr := (addr_realloc hre).trans (hr hok)
    rw [hre]
    simp only [haddr, if_true]
    exact (length_realloc hre).le.trans (le_max_left ..)
  | false =>
    have hnone : realloc re (some s.sendBuf) size = none := by simp [realloc, hok]
    have hm : ma.ok = true := ha.resolve_left (by simp [hok])
    obtain ⟨tmp, htmp⟩ : ∃ tmp, malloc ma size = some tmp := by simp [malloc, hm]
    have hlen : tmp.bytes.length = size := length_malloc htmp
    rw [hnone, htmp]
    simp only [memcpy, List.take_zero, List.nil_append, List.length_append, List.length_take,
      List.length_drop]
    omega

/-- `send` copies its payload into a live block exactly where the growth suffices. -/
theorem inside_iff (hf : s.BufferFits) (hl : s.sendBufLive = true) (hs : Supplied s buf re ma) :
    (s.append buf re ma).2 = [.appended buf true] ↔ GrowthSuffices s buf re := by
  obtain ⟨hn, ha⟩ := hs
  have ho := hf.offset_le
  constructor
  · intro hi
    rcases Nat.lt_or_ge s.sendLen (buf.length + s.sendOffset) with hg | hg
    · rw [append_eq] at hi
      obtain ⟨hlive, hfit⟩ : (s.grown buf re ma).sendBufLive = true ∧
          (s.grown buf re ma).sendOffset + buf.length ≤
            (s.grown buf re ma).sendBuf.bytes.length := by simpa using hi
      rw [grown_sendOffset] at hfit
      rw [grown_of_growth re ma hn hg] at hlive hfit
      have hr := (allocSendBuf_live hl ha).mp hlive
      have hlen := hfit.trans (length_allocSendBuf_le hf ha hr)
      rw [(allocSendBuf_frame ..).2, newSize_eq (by omega)] at hlen
      exact .inr ⟨hr, (le_newSize_iff ho hn hg).mp (by omega)⟩
    · exact .inl hg
  · exact fun h => ((makesRoom_iff hf hl hn ha).mpr h).inside

@[simp] theorem live_write (s : Uvcpp) (n : ℤ) : (s.write n).1.sendBufLive = s.sendBufLive := by
  rw [write_frame]

@[simp] theorem live_innerClose (s : Uvcpp) : s.innerClose.1.sendBufLive = s.sendBufLive := by
  rw [innerClose_frame]

@[simp] theorem live_innerStop (s : Uvcpp) : s.innerStop.1.sendBufLive = s.sendBufLive := by
  rw [innerStop_frame]
  exact live_innerClose s

theorem StepCases.live (h : StepCases s a s' es) (ha : ∀ t buf re ma, a ≠ .append t buf re ma) :
    s'.sendBufLive = s.sendBufLive := by
  cases h with
  | append t buf re ma => exact (ha t buf re ma rfl).elim
  | process ev rest n => cases ev <;> simp [Uvcpp.process]
  | connectCb status =>
    unfold connected
    split <;> simp
  | readCb nread =>
    unfold readDone
    split
    · simp
    · split <;> rfl
  | closeCb err =>
    unfold closed
    split
    · dsimp only
      split <;> rfl
    · rfl
  | _ => rfl

theorem stream_step (hf : s.BufferFits) (hl : s.sendBufLive = true) (hg : growing s a)
    (hs : s.step a = some (s', es)) : s'.BufferFits ∧ s'.sendBufLive = true ∧ s.Flows es s' ∧
      ∀ buf fits, .appended buf fits ∈ es → fits = true := by
  have hcases := step_cases hs
  rcases hcases.moves with ⟨t, buf, re, ma, rfl, rfl, rfl⟩ |
    ⟨rest, n, rfl, -, hn, rfl, rfl⟩ | hq
  · obtain ⟨hserved, hgrow⟩ := hg
    have hm := (makesRoom_iff hf hl hserved.1 hserved.2).mpr hgrow
    obtain ⟨hf', hl', hflow⟩ := hm.append hf hserved
    refine ⟨hf'.of_frame rfl rfl rfl, hl', hflow, ?_⟩
    intro buf' fits he
    rw [hm.inside, List.mem_singleton] at he
    exact (Event.appended.inj he).2
  · have hf' : BufferFits { s with point := .batch rest } := hf.of_frame rfl rfl rfl
    obtain ⟨hf'', hflow⟩ := hf'.write hn
    refine ⟨hf'', (hcases.live (by simp)).trans hl, hflow, ?_⟩
    intro buf fits he
    rcases eq_or_ne s.sendOffset 0 with h0 | h0
    · simp [write, h0] at he
    · rw [write_events (s := { s with point := .batch rest }) h0, List.mem_singleton] at he
      contradiction
  · refine ⟨hf.of_frame hq.sendBuf hq.sendLen hq.sendOffset, ?_, hq.flows, ?_⟩
    · cases a with
      | append t buf re ma =>
        cases hcases with
        | append =>
          have := hq.events (.appended buf _) (List.mem_singleton_self _)
          contradiction
      | _ => exact (hcases.live (by simp)).trans hl
    · intro buf fits he
      have := hq.events _ he
      contradiction

structure Stream (tr : List Event) (s : Uvcpp) : Prop where
  /-- What was written and what waits is what was sent. -/
  conserved : reported tr ++ s.sendBuf.bytes.take s.sendOffset = sent tr
  /-- No copy has left a live block. -/
  inside : ∀ buf fits, .appended buf fits ∈ tr → fits = true
  fits : s.sendBufLive = true ∧ s.sendOffset ≤ s.sendLen ∧ s.sendLen ≤ s.sendBuf.bytes.length
  /-- The next copy does not either exactly if its growth suffices. -/
  next : ∀ t buf re ma s' es, Supplied s buf re ma → s.step (.append t buf re ma) = some (s', es) →
    (es = [.appended buf true] ↔ GrowthSuffices s buf re)

/-- A client whose buffer has grown any number of times still conserves the stream, up to the
first growth that does not suffice. -/
theorem stream_of_reach (h : client.Reach growing tr s) : Stream tr s := by
  obtain ⟨hf, hl, hc, hi⟩ : s.BufferFits ∧ s.sendBufLive = true ∧
      reported tr ++ s.waiting = sent tr ∧ ∀ buf fits, .appended buf fits ∈ tr → fits = true := by
    refine h.invariant (I := fun tr s => s.BufferFits ∧ s.sendBufLive = true ∧
      reported tr ++ s.waiting = sent tr ∧ ∀ buf fits, .appended buf fits ∈ tr → fits = true) ?_ ?_
    · rintro s ⟨blk, hb, rfl⟩
      exact ⟨⟨by simp [create], by simp [create, hb], by simp [create, clientBufferLen]⟩, rfl,
        by simp [create, waiting, reported, sent], nofun⟩
    · rintro tr s a s' es - ⟨hf, hl, hc, hi⟩ hg hs
      obtain ⟨hf', hl', hflow, hi'⟩ := stream_step hf hl hg hs
      refine ⟨hf', hl', ?_, ?_⟩
      · calc reported (tr ++ es) ++ s'.waiting
            = reported tr ++ (reported es ++ s'.waiting) := by
              rw [reported_append, List.append_assoc]
          _ = sent (tr ++ es) := by
              rw [← hflow, ← List.append_assoc, hc, sent_append]
      · intro buf fits he
        exact (List.mem_append.mp he).elim (hi buf fits) (hi' buf fits)
  refine ⟨hc, hi, ⟨hl, hf.offset_le, hf.len_le⟩, ?_⟩
  intro t buf re ma s' es hserved hs
  cases step_cases hs with
  | append => exact inside_iff hf hl hserved

/-- A buffer that grows for the second send, and is then written in part. -/
theorem stream_of_reach_example : ∃ tr s, client.Reach growing tr s ∧
    (reported tr).length = 700 ∧ s.sendLen = 1648 ∧ s.sendOffset = 400 ∧ Stream tr s := by
  obtain ⟨tr, s, hr, hp⟩ := System.exists_run_of_exec (M := client) (G := growing)
    (s := create ⟨1, List.replicate clientBufferLen 0⟩)
    [.connect "127.0.0.1" 50000 0, .run, .connectCb 0,
      .append 1 (List.replicate 900 7) ⟨true, 1, fun _ => 0⟩ ⟨true, 2, fun _ => 0⟩, .insert 1,
      .append 2 (List.replicate 200 8) ⟨true, 1, fun _ => 0⟩ ⟨true, 2, fun _ => 0⟩,
      .asyncSend 1, .asyncEnter, .swap, .process 700]
    (p := fun s tr => decide ((reported tr).length = 700 ∧ s.sendLen = 1648 ∧
      s.sendOffset = 400)) (by decide +kernel)
  have h : client.Reach growing tr s := ⟨_, ⟨_, List.length_replicate, rfl⟩, hr⟩
  obtain ⟨h₁, h₂, h₃⟩ := of_decide_eq_true hp
  exact ⟨tr, s, h, h₁, h₂, h₃, stream_of_reach h⟩

end UvWrapper.Uvcpp
