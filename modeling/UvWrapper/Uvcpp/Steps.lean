import UvWrapper.Uvcpp.Basic

/-! # Inversion of the client's steps

`StepCases` lists what each label does with the conditions under which it is enabled.
The lemmas after it say which fields the larger steps leave alone.
-/

namespace UvWrapper.Uvcpp

open Function Memory

inductive StepCases (s : Uvcpp) : Act → Uvcpp → List Event → Prop
  | connect (host : String) (port : ℕ) (err : ℤ) : s.point = .down →
      StepCases s (.connect host port err) ({ s with addr := some (host, port) }.connect err).1
        ({ s with addr := some (host, port) }.connect err).2
  | run : s.point = .down → StepCases s .run { s with async := .opened, point := .polling } []
  | setAutoReconnect (b : Bool) :
      StepCases s (.setAutoReconnect b) { s with autoReconnect := b } []
  | append (t : ℕ) (buf : List UInt8) (re ma : Answer) : s.point ≠ .down →
      s.caller t = .idle → buf.length < 2 ^ 32 →
      StepCases s (.append t buf re ma)
        { (s.append buf re ma).1 with caller := update s.caller t .appended }
        (s.append buf re ma).2
  | insert (t : ℕ) : s.caller t = .appended →
      StepCases s (.insert t) (s.enqueue t (sizeKey s.works) .send).1 [.inserted .send]
  | close (t : ℕ) : s.point ≠ .down → s.caller t = .idle →
      StepCases s (.close t) (s.enqueue t mediumKey .closeConn).1 [.inserted .closeConn]
  | stop (t : ℕ) : s.point ≠ .down → s.caller t = .idle →
      StepCases s (.stop t) (s.enqueue t highKey .stopLoop).1 [.inserted .stopLoop]
  | asyncSend (t : ℕ) (ev : EventType) : s.caller t = .inserted ev →
      StepCases s (.asyncSend t)
        { s with asyncSignal := true, caller := update s.caller t .idle } []
  | asyncEnter : s.point = .polling → s.async = .opened → s.asyncSignal = true →
      StepCases s .asyncEnter { s with asyncSignal := false, point := .entered } []
  | swap : s.point = .entered →
      StepCases s .swap
        { s with works := ∅, point := .batch (OrderedMap.inOrder s.works) } []
  | process (ev : EventType) (rest : List EventType) (n : ℤ) :
      s.point = .batch (ev :: rest) → n ≤ s.sendOffset →
      StepCases s (.process n) (s.process ev rest n).1 (s.process ev rest n).2
  | asyncReturn : s.point = .batch [] → StepCases s .asyncReturn { s with point := .polling } []
  | connectCb (status : ℤ) : s.point = .polling → s.tcp = .connecting →
      StepCases s (.connectCb status) (s.connected status).1 (s.connected status).2
  | readCb (nread : ℤ) : s.point = .polling → s.tcp = .connected →
      StepCases s (.readCb nread) (s.readDone nread).1 (s.readDone nread).2
  | closeCb (err : ℤ) : s.point = .polling → s.tcp = .closing →
      StepCases s (.closeCb err) (s.closed err).1 (s.closed err).2
  | asyncCloseCb : s.point = .polling → s.async = .closing →
      StepCases s .asyncCloseCb { s with async := .freed } []
  | leave : s.point = .polling → s.stopFlag = true →
      StepCases s .leave { s with point := .left } []

variable {s s' : Uvcpp} {a : Act} {es : List Event} {n status nread err : ℤ}

theorem step_guarded {c : Prop} [Decidable c] {p : Uvcpp × List Event}
    (hs : (if c then some p else none) = some (s', es)) : c ∧ p.1 = s' ∧ p.2 = es := by
  obtain ⟨hc, he⟩ := Option.ite_none_right_eq_some.mp hs
  obtain rfl := Option.some.inj he
  exact ⟨hc, rfl, rfl⟩

theorem step_cases (hs : s.step a = some (s', es)) : StepCases s a s' es := by
  cases a with
  | connect host port err =>
    obtain ⟨hc, rfl, rfl⟩ := step_guarded hs
    exact .connect host port err hc
  | run => obtain ⟨hc, rfl, rfl⟩ := step_guarded hs; exact .run hc
  | setAutoReconnect b =>
    obtain ⟨rfl, rfl⟩ := Prod.mk.inj (Option.some.inj hs)
    exact .setAutoReconnect b
  | append t buf re ma =>
    obtain ⟨⟨hp, hc, hl⟩, rfl, rfl⟩ := step_guarded hs
    exact .append t buf re ma hp hc hl
  | insert t => obtain ⟨hc, rfl, rfl⟩ := step_guarded hs; exact .insert t hc
  | close t => obtain ⟨⟨hp, hc⟩, rfl, rfl⟩ := step_guarded hs; exact .close t hp hc
  | stop t => obtain ⟨⟨hp, hc⟩, rfl, rfl⟩ := step_guarded hs; exact .stop t hp hc
  | asyncSend t =>
    simp only [step] at hs
    split at hs
    · next ev hc =>
      obtain ⟨rfl, rfl⟩ := Prod.mk.inj (Option.some.inj hs)
      exact .asyncSend t ev hc
    · contradiction
  | asyncEnter =>
    obtain ⟨⟨hp, ho, hg⟩, rfl, rfl⟩ := step_guarded hs
    exact .asyncEnter hp ho hg
  | swap => obtain ⟨hp, rfl, rfl⟩ := step_guarded hs; exact .swap hp
  | process n =>
    simp only [step] at hs
    split at hs
    · next ev rest hp =>
      obtain ⟨hn, rfl, rfl⟩ := step_guarded hs
      exact .process ev rest n hp hn
    · contradiction
  | asyncReturn => obtain ⟨hp, rfl, rfl⟩ := step_guarded hs; exact .asyncReturn hp
  | connectCb status =>
    obtain ⟨⟨hp, ht⟩, rfl, rfl⟩ := step_guarded hs
    exact .connectCb status hp ht
  | readCb nread =>
    obtain ⟨⟨hp, ht⟩, rfl, rfl⟩ := step_guarded hs
    exact .readCb nread hp ht
  | closeCb err => obtain ⟨⟨hp, ht⟩, rfl, rfl⟩ := step_guarded hs; exact .closeCb err hp ht
  | asyncCloseCb => obtain ⟨⟨hp, ha⟩, rfl, rfl⟩ := step_guarded hs; exact .asyncCloseCb hp ha
  | leave => obtain ⟨⟨hp, hf⟩, rfl, rfl⟩ := step_guarded hs; exact .leave hp hf

/-! ## What the larger steps leave alone -/

theorem write_frame (s : Uvcpp) (n : ℤ) :
    (s.write n).1 = { s with
      sendBuf := (s.write n).1.sendBuf
      sendOffset := (s.write n).1.sendOffset } := by
  unfold write; split_ifs <;> rfl

theorem append_frame (s : Uvcpp) (buf : List UInt8) (re ma : Answer) :
    (s.append buf re ma).1 = { s with
      sendBuf := (s.append buf re ma).1.sendBuf
      sendBufLive := (s.append buf re ma).1.sendBufLive
      sendLen := (s.append buf re ma).1.sendLen
      sendOffset := (s.append buf re ma).1.sendOffset } := by
  unfold append allocSendBuf
  split
  · dsimp only; split
    · split <;> rfl
    · split <;> rfl
  · rfl

theorem innerClose_frame (s : Uvcpp) :
    s.innerClose.1 = { s with
      statusNormal := false
      tcpData := s.innerClose.1.tcpData
      tcp := s.innerClose.1.tcp } := by
  unfold innerClose
  split
  · next h => simp [← h]
  · rfl

theorem innerStop_frame (s : Uvcpp) :
    s.innerStop.1 = { s.innerClose.1 with
      async := s.innerStop.1.async
      stopFlag := true } := by
  simp only [innerStop, asyncDeinit]
  split <;> rfl

/-! ## One step, field by field -/

/-- The events after which the async callback returns. -/
def EventType.ends : EventType → Bool
  | .closeConn | .stopLoop => true
  | .send | .null => false

def nextWorks (s : Uvcpp) : Act → Works
  | .insert _ => s.works.insertIfNew (sizeKey s.works) .send
  | .close _ => s.works.insertIfNew mediumKey .closeConn
  | .stop _ => s.works.insertIfNew highKey .stopLoop
  | .swap => ∅
  | _ => s.works

def nextPoint (s : Uvcpp) : Act → LoopPoint
  | .run | .asyncReturn => .polling
  | .asyncEnter => .entered
  | .swap => .batch (OrderedMap.inOrder s.works)
  | .process _ =>
    match s.point with
    | .batch (ev :: rest) => if EventType.ends ev then .polling else .batch rest
    | p => p
  | .leave => .left
  | _ => s.point

def nextCaller (s : Uvcpp) : Act → ℕ → Caller
  | .append t .. => update s.caller t .appended
  | .insert t => update s.caller t (.inserted .send)
  | .close t => update s.caller t (.inserted .closeConn)
  | .stop t => update s.caller t (.inserted .stopLoop)
  | .asyncSend t => update s.caller t .idle
  | _ => s.caller

def nextAutoReconnect (s : Uvcpp) : Act → Bool
  | .setAutoReconnect b => b
  | _ => s.autoReconnect

/-- The fields that a label alone decides. Nothing writes `_exStopLoop`. -/
structure Frame (s : Uvcpp) (a : Act) (s' : Uvcpp) : Prop where
  works : s'.works = s.nextWorks a
  point : s'.point = s.nextPoint a
  caller : s'.caller = s.nextCaller a
  autoReconnect : s'.autoReconnect = s.nextAutoReconnect a
  exStopLoop : s'.exStopLoop = s.exStopLoop

theorem StepCases.frame (h : StepCases s a s' es) : Frame s a s' := by
  cases h with
  | append t buf re ma => rw [append_frame]; exact ⟨rfl, rfl, rfl, rfl, rfl⟩
  | process ev rest n hp =>
    have hn : s.nextPoint (.process n) =
        if EventType.ends ev then .polling else .batch rest := by
      simp only [nextPoint, hp]
    cases ev with
    | send =>
      simp only [Uvcpp.process]
      rw [write_frame]
      exact ⟨rfl, hn.symm, rfl, rfl, rfl⟩
    | closeConn =>
      simp only [Uvcpp.process]
      rw [innerClose_frame]
      exact ⟨rfl, hn.symm, rfl, rfl, rfl⟩
    | stopLoop =>
      simp only [Uvcpp.process]
      rw [innerStop_frame, innerClose_frame]
      exact ⟨rfl, hn.symm, rfl, rfl, rfl⟩
    | null => exact ⟨rfl, hn.symm, rfl, rfl, rfl⟩
  | connectCb status =>
    unfold connected
    split
    · exact ⟨rfl, rfl, rfl, rfl, rfl⟩
    · dsimp only; rw [innerClose_frame]; exact ⟨rfl, rfl, rfl, rfl, rfl⟩
  | readCb nread =>
    unfold readDone
    split
    · dsimp only; rw [innerClose_frame]; exact ⟨rfl, rfl, rfl, rfl, rfl⟩
    · split <;> exact ⟨rfl, rfl, rfl, rfl, rfl⟩
  | closeCb err =>
    unfold closed
    split
    · dsimp only; split <;> exact ⟨rfl, rfl, rfl, rfl, rfl⟩
    · exact ⟨rfl, rfl, rfl, rfl, rfl⟩
  | _ => exact ⟨rfl, rfl, rfl, rfl, rfl⟩

theorem Frame.down (h : Frame s a s') (hd : s'.point = .down) : s.point = .down := by
  have hp := h.point.symm.trans hd
  cases a with
  | process n =>
    simp only [nextPoint] at hp
    split at hp
    · split at hp <;> cases hp
    · exact hp
  | run | asyncEnter | swap | asyncReturn | leave => cases hp
  | _ => exact hp

end UvWrapper.Uvcpp
