import UvWrapper.Uvcpp.Steps

/-! # The send buffer conserves the byte stream

The bytes of `_sendBuf` below `_sendOffset` are those that `send` has taken and
`uv_try_write` has not yet reported. An append adds at their end, a partial write moves
the rest down; as long as no append needs a larger block, nothing else touches them.
-/

namespace UvWrapper.Uvcpp

open Function Memory Transition

variable {s s' : Uvcpp} {a : Act} {es tr : List Event} {n status nread err : ℤ}
  {buf : List UInt8}

def waiting (s : Uvcpp) : List UInt8 := s.sendBuf.bytes.take s.sendOffset

def sent (tr : List Event) : List UInt8 :=
  tr.flatMap fun
    | .appended buf _ => buf
    | _ => []

/-- The bytes that `uv_try_write` has reported as written. -/
def reported (tr : List Event) : List UInt8 :=
  tr.flatMap fun
    | .tryWrite _ _ bytes n => bytes.take n.toNat
    | _ => []

@[simp] theorem sent_append (tr tr' : List Event) : sent (tr ++ tr') = sent tr ++ sent tr' :=
  List.flatMap_append

@[simp] theorem reported_append (tr tr' : List Event) :
    reported (tr ++ tr') = reported tr ++ reported tr' := List.flatMap_append

/-- What waits before and is added is what is written and what waits after. -/
def Flows (s : Uvcpp) (es : List Event) (s' : Uvcpp) : Prop :=
  s.waiting ++ sent es = reported es ++ s'.waiting

structure BufferFits (s : Uvcpp) : Prop where
  offset_le : s.sendOffset ≤ s.sendLen
  len_le : s.sendLen ≤ s.sendBuf.bytes.length
  len_lt : s.sendLen < 2 ^ 32

/-- `send` finds room: the exact sum of both lengths is at most `_sendLen`. -/
def noGrowth (s : Uvcpp) : Act → Prop
  | .append _ buf _ _ => buf.length + s.sendOffset ≤ s.sendLen
  | _ => True

instance : DecidableRel noGrowth := fun s a =>
  match a with
  | .append _ buf _ _ => inferInstanceAs (Decidable (buf.length + s.sendOffset ≤ s.sendLen))
  | .connect .. | .run | .setAutoReconnect _ | .insert _ | .close _ | .stop _ | .asyncSend _
  | .asyncEnter | .swap | .process _ | .asyncReturn | .connectCb _ | .readCb _ | .closeCb _
  | .asyncCloseCb | .leave => .isTrue trivial

theorem append_noGrowth (re ma : Answer) (hf : s.BufferFits)
    (hg : buf.length + s.sendOffset ≤ s.sendLen) :
    s.append buf re ma = ({ s with
      sendBuf := { s.sendBuf with bytes := memcpy s.sendBuf.bytes s.sendOffset buf }
      sendOffset := s.sendOffset + buf.length },
      [.appended buf
        (s.sendBufLive && decide (s.sendOffset + buf.length ≤ s.sendBuf.bytes.length))]) := by
  have hl := hf.len_lt
  have h₁ : ¬ s.sendLen < uint (buf.length + s.sendOffset) := by
    rw [uint, Nat.mod_eq_of_lt (by omega)]; omega
  have h₂ : uint (s.sendOffset + buf.length) = s.sendOffset + buf.length :=
    Nat.mod_eq_of_lt (by omega)
  simp only [append, if_neg h₁, h₂]

theorem BufferFits.append (re ma : Answer) (hf : s.BufferFits)
    (hg : buf.length + s.sendOffset ≤ s.sendLen) :
    (s.append buf re ma).1.BufferFits ∧
      s.Flows (s.append buf re ma).2 (s.append buf re ma).1 := by
  rw [append_noGrowth re ma hf hg]
  have hb := hf.len_le
  refine ⟨⟨?_, ?_, hf.len_lt⟩, ?_⟩
  · simp only; omega
  · simpa [length_memcpy (show s.sendOffset + buf.length ≤ s.sendBuf.bytes.length by omega)]
      using hb
  · simp [Flows, waiting, sent, reported, take_memcpy (d := s.sendBuf.bytes) (c := buf)
      (show s.sendOffset ≤ s.sendBuf.bytes.length by omega)]

theorem BufferFits.write (hf : s.BufferFits) (hn : n ≤ s.sendOffset) :
    (s.write n).1.BufferFits ∧ s.Flows (s.write n).2 (s.write n).1 := by
  have ho := hf.offset_le
  have hb := hf.len_le
  unfold Uvcpp.write
  rcases eq_or_ne s.sendOffset 0 with h0 | h0
  · rw [if_pos h0]
    exact ⟨hf, by simp [Flows, sent, reported]⟩
  · rw [if_neg h0]
    rcases lt_or_ge 0 n with hp | hp
    · rw [if_pos hp]
      have hk : n.toNat + (s.sendOffset - n.toNat) = s.sendOffset := by omega
      have hm := take_memmove (d := s.sendBuf.bytes) (n := n.toNat)
        (k := s.sendOffset - n.toNat) (by omega)
      rw [hk] at hm
      refine ⟨⟨?_, ?_, hf.len_lt⟩, ?_⟩
      · simp only; omega
      · simpa [length_memmove (d := s.sendBuf.bytes) (n := n.toNat)
          (show s.sendOffset - n.toNat ≤ s.sendBuf.bytes.length by omega)] using hb
      · simp [Flows, waiting, sent, reported, hm, List.take_append_drop]
    · rw [if_neg (not_lt.mpr hp)]
      have hz : n.toNat = 0 := by omega
      exact ⟨hf, by simp [Flows, sent, reported, hz]⟩

def Event.isBytes : Event → Bool
  | .appended _ _ | .tryWrite _ _ _ _ => true
  | _ => false

theorem sent_eq_nil (h : ∀ e ∈ es, e.isBytes = false) : sent es = [] := by
  apply List.flatMap_eq_nil_iff.mpr
  intro e he
  cases e <;> first | rfl | exact absurd (h _ he) nofun

theorem reported_eq_nil (h : ∀ e ∈ es, e.isBytes = false) : reported es = [] := by
  apply List.flatMap_eq_nil_iff.mpr
  intro e he
  cases e <;> first | rfl | exact absurd (h _ he) nofun

theorem BufferFits.of_frame (hf : s.BufferFits) (hb : s'.sendBuf = s.sendBuf)
    (hl : s'.sendLen = s.sendLen) (ho : s'.sendOffset = s.sendOffset) : s'.BufferFits :=
  ⟨by rw [hl, ho]; exact hf.offset_le, by rw [hl, hb]; exact hf.len_le,
    by rw [hl]; exact hf.len_lt⟩

structure Quiet (s : Uvcpp) (es : List Event) (s' : Uvcpp) : Prop where
  sendBuf : s'.sendBuf = s.sendBuf
  sendLen : s'.sendLen = s.sendLen
  sendOffset : s'.sendOffset = s.sendOffset
  events : ∀ e ∈ es, e.isBytes = false

theorem Quiet.flows (h : s.Quiet es s') : s.Flows es s' := by
  simp [Flows, waiting, h.sendBuf, h.sendOffset, sent_eq_nil h.events,
    reported_eq_nil h.events]

theorem quiet_innerClose (s : Uvcpp) : s.Quiet s.innerClose.2 s.innerClose.1 := by
  unfold innerClose
  split <;> exact ⟨rfl, rfl, rfl, by simp [Event.isBytes]⟩

theorem quiet_innerStop (s : Uvcpp) : s.Quiet s.innerStop.2 s.innerStop.1 := by
  obtain ⟨hb, hl, ho, he⟩ := quiet_innerClose s
  rw [innerStop_frame]
  exact ⟨hb, hl, ho, List.forall_mem_cons.mpr ⟨rfl, he⟩⟩

theorem quiet_connected (s : Uvcpp) (status : ℤ) :
    s.Quiet (s.connected status).2 (s.connected status).1 := by
  unfold connected
  split
  · exact ⟨rfl, rfl, rfl, by simp [Event.isBytes]⟩
  · obtain ⟨hb, hl, ho, he⟩ :=
      quiet_innerClose { s with tcpHandle := true, tcp := .refused }
    exact ⟨hb, hl, ho, by simpa [Event.isBytes] using he⟩

theorem quiet_readDone (s : Uvcpp) (nread : ℤ) :
    s.Quiet (s.readDone nread).2 (s.readDone nread).1 := by
  unfold readDone
  split
  · obtain ⟨hb, hl, ho, he⟩ := quiet_innerClose s
    exact ⟨hb, hl, ho, by simpa [Event.isBytes] using he⟩
  · split <;> exact ⟨rfl, rfl, rfl, by simp [Event.isBytes]⟩

theorem quiet_closed (s : Uvcpp) (err : ℤ) : s.Quiet (s.closed err).2 (s.closed err).1 := by
  unfold closed
  split
  · dsimp only
    split <;> exact ⟨rfl, rfl, rfl, by simp [connect, Event.isBytes]⟩
  · exact ⟨rfl, rfl, rfl, by simp [Event.isBytes]⟩

/-- Bytes move only where `send` appends and where an `EV_SEND` is processed. -/
theorem StepCases.moves (h : StepCases s a s' es) :
    (∃ t buf re ma, a = .append t buf re ma ∧ es = (s.append buf re ma).2 ∧
      s' = { (s.append buf re ma).1 with caller := update s.caller t .appended }) ∨
    (∃ rest, ∃ n : ℤ, a = .process n ∧ s.point = .batch (.send :: rest) ∧
      n ≤ s.sendOffset ∧ es = ({ s with point := .batch rest }.write n).2 ∧
      s' = ({ s with point := .batch rest }.write n).1) ∨
    s.Quiet es s' := by
  cases h with
  | append t buf re ma => exact .inl ⟨t, buf, re, ma, rfl, rfl, rfl⟩
  | process ev rest n hp hn =>
    refine .inr ?_
    cases ev with
    | send => exact .inl ⟨rest, n, rfl, hp, hn, rfl, rfl⟩
    | closeConn =>
      obtain ⟨hb, hl, ho, he⟩ := quiet_innerClose { s with point := .polling }
      exact .inr ⟨hb, hl, ho, he⟩
    | stopLoop =>
      obtain ⟨hb, hl, ho, he⟩ := quiet_innerStop { s with point := .polling }
      exact .inr ⟨hb, hl, ho, he⟩
    | null => exact .inr ⟨rfl, rfl, rfl, nofun⟩
  | connectCb status => exact .inr (.inr (quiet_connected s status))
  | readCb nread => exact .inr (.inr (quiet_readDone s nread))
  | closeCb err => exact .inr (.inr (quiet_closed s err))
  | connect host port err =>
    exact .inr (.inr ⟨rfl, rfl, rfl, by simp [Uvcpp.connect, Event.isBytes]⟩)
  | insert | close | stop => exact .inr (.inr ⟨rfl, rfl, rfl, by simp [Event.isBytes]⟩)
  | run | setAutoReconnect | asyncSend | asyncEnter | swap | asyncReturn | asyncCloseCb
  | leave => exact .inr (.inr ⟨rfl, rfl, rfl, nofun⟩)

theorem BufferFits.step (hf : s.BufferFits) (hg : noGrowth s a)
    (hs : s.step a = some (s', es)) : s'.BufferFits ∧ s.Flows es s' := by
  rcases (step_cases hs).moves with ⟨t, buf, re, ma, rfl, rfl, rfl⟩ |
    ⟨rest, n, -, -, hn, rfl, rfl⟩ | hq
  · obtain ⟨hf', hflow⟩ := hf.append re ma hg
    exact ⟨hf'.of_frame rfl rfl rfl, hflow⟩
  · have hf' : BufferFits { s with point := .batch rest } := hf.of_frame rfl rfl rfl
    exact hf'.write hn
  · exact ⟨hf.of_frame hq.sendBuf hq.sendLen hq.sendOffset, hq.flows⟩

theorem write_events (h0 : s.sendOffset ≠ 0) :
    (s.write n).2 = [.tryWrite s.tcpHandle s.tcp (s.sendBuf.bytes.take s.sendOffset) n] := by
  unfold write
  rw [if_neg h0]
  dsimp only
  split <;> rfl

theorem mem_write {handle : Bool} {st : TcpState} {bytes : List UInt8} {m : ℤ}
    (he : .tryWrite handle st bytes m ∈ (s.write n).2) :
    m = n ∧ handle = s.tcpHandle ∧ st = s.tcp ∧ s.sendOffset ≠ 0 := by
  rcases eq_or_ne s.sendOffset 0 with h0 | h0
  · simp [write, h0] at he
  · rw [write_events h0, List.mem_singleton] at he
    injection he with hh ht hb hm
    exact ⟨hm, hh, ht, h0⟩

theorem StepCases.tryWrite {handle : Bool} {st : TcpState} {bytes : List UInt8}
    (h : StepCases s a s' es) (he : .tryWrite handle st bytes n ∈ es) :
    handle = s.tcpHandle ∧ st = s.tcp ∧ s.sendOffset ≠ 0 ∧ a = .process n ∧
      ∃ rest, s.point = .batch (.send :: rest) := by
  rcases h.moves with ⟨t, buf, re, ma, rfl, rfl, rfl⟩ | ⟨rest, m, rfl, hp, hn, rfl, rfl⟩ | hq
  · cases List.mem_singleton.mp he
  · obtain ⟨rfl, hh, ht, h0⟩ := mem_write he
    exact ⟨hh, ht, h0, rfl, rest, hp⟩
  · cases hq.events _ he

theorem StepCases.tryWrite_mem {rest : List EventType} (h : StepCases s (.process n) s' es)
    (hp : s.point = .batch (.send :: rest)) (h0 : s.sendOffset ≠ 0) :
    .tryWrite s.tcpHandle s.tcp (s.sendBuf.bytes.take s.sendOffset) n ∈ es := by
  cases h with
  | process ev rest' _ hp' =>
    obtain ⟨rfl, rfl⟩ := List.cons.inj (LoopPoint.batch.inj (hp.symm.trans hp'))
    have hw := write_events (s := { s with point := .batch rest }) (n := n) h0
    exact hw ▸ List.mem_singleton.mpr rfl

/-- In every run whose sends find room, the bytes reported as written, followed by those
that wait in the buffer, are the payloads in the order in which `send` took the lock. -/
theorem sendBuffer_conserves (h : client.Reach noGrowth tr s) :
    reported tr ++ s.sendBuf.bytes.take s.sendOffset = sent tr ∧ s.sendOffset ≤ s.sendLen := by
  have hI : s.BufferFits ∧ reported tr ++ s.waiting = sent tr := by
    refine h.invariant (I := fun tr s => s.BufferFits ∧ reported tr ++ s.waiting = sent tr)
      ?_ ?_
    · rintro s ⟨blk, hb, rfl⟩
      exact ⟨⟨by simp [create], by simp [create, hb], by simp [create, clientBufferLen]⟩,
        by simp [create, waiting, reported, sent]⟩
    · rintro tr s a s' es - ⟨hf, hc⟩ hg hs
      obtain ⟨hf', hflow⟩ := hf.step hg hs
      refine ⟨hf', ?_⟩
      calc reported (tr ++ es) ++ s'.waiting
          = reported tr ++ (reported es ++ s'.waiting) := by
            rw [reported_append, List.append_assoc]
        _ = sent (tr ++ es) := by
            rw [← hflow, ← List.append_assoc, hc, sent_append]
  exact ⟨hI.2, hI.1.offset_le⟩

/-- A run with a partial write between two sends. -/
theorem sendBuffer_conserves_example :
    ∃ tr s, client.Reach noGrowth tr s ∧ reported tr = [1, 2] ∧ sent tr = [1, 2, 3, 4] ∧
      reported tr ++ s.sendBuf.bytes.take s.sendOffset = sent tr ∧
      s.sendOffset ≤ s.sendLen := by
  obtain ⟨tr, s, hr, hp⟩ := System.exists_run_of_exec (M := client) (G := noGrowth)
    (s := create ⟨1, List.replicate clientBufferLen 0⟩)
    [.connect "127.0.0.1" 50000 0, .run, .connectCb 0,
      .append 1 [1, 2, 3] ⟨true, 1, fun _ => 0⟩ ⟨true, 2, fun _ => 0⟩, .insert 1, .asyncSend 1,
      .asyncEnter, .swap, .process 2, .asyncReturn,
      .append 1 [4] ⟨true, 1, fun _ => 0⟩ ⟨true, 2, fun _ => 0⟩]
    (p := fun _ tr => decide (reported tr = [1, 2] ∧ sent tr = [1, 2, 3, 4]))
    (by decide +kernel)
  have h : client.Reach noGrowth tr s := ⟨_, ⟨_, List.length_replicate, rfl⟩, hr⟩
  exact ⟨tr, s, h, (of_decide_eq_true hp).1, (of_decide_eq_true hp).2, sendBuffer_conserves h⟩

end UvWrapper.Uvcpp
