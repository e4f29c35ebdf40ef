import UvWrapper.Connect.Basic

/-! # Inversion of the connection's steps

`StepCases` lists what each label does with the conditions under which it is enabled. The
steps of the loop and of the threads inside it are left to the model of the loop, and the
callbacks that branch have lists of their own.
-/

namespace UvWrapper.Uvconnect

open Function Memory

/-- The labels that are steps of the loop and its threads and nothing else. -/
inductive LoopAct (s : Uvconnect) : Act → Uvloop.Act Req → Prop
  | run (t : ℕ) : s.Idle t → LoopAct s (.run t) (.run t)
  | setRunning (t : ℕ) : LoopAct s (.setRunning t) (.setRunning t)
  | stop (t : ℕ) : s.Idle t → LoopAct s (.stop t) (.call t .stop)

/-- Everything a step of the connection can do. -/
inductive StepCases (w : ℕ) (s : Uvconnect) : Act → Uvconnect → List Event → Prop
  | registerConnect : StepCases w s .registerConnect { s with ploop := true } []
  | registerloopAndStream : StepCases w s .registerloopAndStream { s with
      bConnectSuccess := true
      ploop := true
      stream := some s.tcps
      tcps := s.tcps + 1
      tcp := update s.tcp s.tcps .connected } []
  | setEventHandler (b : Bool) : StepCases w s (.setEventHandler b) { s with handler := b } []
  | setIPAndAddr (addr : Sockaddr) :
      StepCases w s (.setIPAndAddr addr) { s with addr := some addr } []
  | loop (a : Act) (b : Uvloop.Act Req) (th : Uvloop.Threads Req)
      (es : List (Uvloop.Event Req)) : LoopAct s a b → s.threads.step b = some (th, es) →
      StepCases w s a { s with threads := th } (es.map .loop)
  | rejected (t : ℕ) (buf : List UInt8) : s.Idle t →
      StepCases w s (.wirteData t buf) s [.rejected t]
  | checked (t : ℕ) (buf : List UInt8) : s.Idle t → s.bConnectSuccess = true →
      s.ploop = true →
      StepCases w s (.wirteData t buf) { s with call := update s.call t (.checked buf) } []
  | obtained (t : ℕ) (ma : Answer) (buf : List UInt8) (r : ℕ) (s₁ : Uvconnect) :
      s.call t = .checked buf → s.takeSend ma = some (r, s₁) →
      StepCases w s (.takeSend t ma) { s₁ with call := update s.call t (.obtained r buf) }
        [.obtained t r buf]
  | obtainFault (t : ℕ) (ma : Answer) : s.takeSend ma = none →
      StepCases w s (.takeSend t ma) { s with crashed := true } [.fault]
  | filled (t : ℕ) (ma re : Answer) (r : ℕ) (buf : List UInt8) (b : Safebuffer) (ok : Bool) :
      s.call t = .obtained r buf →
      (s.send r).tsafebuf.readmem w buf ma re = some (b, ok) →
      StepCases w s (.readmem t ma re) { s with
        send := update s.send r { s.send r with tsafebuf := b }
        call := update s.call t (.requesting (.tcpWrite r)) } [.filled t r ok]
  | fillFault (t : ℕ) (ma re : Answer) :
      StepCases w s (.readmem t ma re) { s with crashed := true } [.fault]
  | requesting (t : ℕ) (f : Api) (s₁ : Uvconnect) (req : Req) : s.Idle t →
      s.begin f = (s₁, some req) →
      StepCases w s (.request t f) { s₁ with call := update s.call t (.requesting req) } []
  | requestRejected (t : ℕ) (f : Api) : s.Idle t →
      StepCases w s (.request t f) s [.rejected t]
  | addReq (t : ℕ) (req : Req) (th : Uvloop.Threads Req) (es : List (Uvloop.Event Req)) :
      s.call t = .requesting req →
      s.threads.step (.call t (.addReq req.eType (some req))) = some (th, es) →
      StepCases w s (.addReq t) { s with threads := th, call := update s.call t .idle }
        (es.map .loop ++ if s.threads.loop.bRunning then [] else [.returned t req .stop])
  | addReqFault (t : ℕ) : StepCases w s (.addReq t) { s with crashed := true } [.fault]
  | lock (t : ℕ) (th : Uvloop.Threads Req) (es : List (Uvloop.Event Req)) :
      s.threads.step (.lock t) = some (th, es) →
      StepCases w s (.lock t) { s with threads := th } (es.map .loop ++ s.lockResult t)
  | turn (a : Uvloop.Turn) (th : Uvloop.Threads Req) (es : List (Uvloop.Event Req)) :
      s.threads.step (.turn a) = some (th, es) → (a = .tcbReturn → s.body = none) →
      StepCases w s (.turn a)
        { s with threads := th, body := s.nextBody a th.loop.position } (es.map .loop)
  | perform (req : Req) (err : ℤ) : s.body = some req →
      StepCases w s (.perform err) ({ s with body := none }.perform req err).1
        ({ s with body := none }.perform req err).2
  | connectCb (h : ℕ) (status : ℤ) : s.threads.loop.position = .polling →
      s.tcp h = .connecting →
      StepCases w s (.connectCb h status) (s.connected h status).1 (s.connected h status).2
  | readCb (h : ℕ) (nread : ℤ) : s.threads.loop.position = .polling →
      s.tcp h = .connected → s.reading h = true →
      StepCases w s (.readCb h nread) (s.readDone nread).1 (s.readDone nread).2
  | writeCb (r : ℕ) (status : ℤ) : s.threads.loop.position = .polling →
      (s.writing r).isSome →
      StepCases w s (.writeCb r status) (s.written r status).1 (s.written r status).2
  | closeCb (h : ℕ) : s.threads.loop.position = .polling → s.tcp h = .closing →
      StepCases w s (.closeCb h) (s.closed h).1 (s.closed h).2

variable {w : ℕ} {s s' : Uvconnect} {a : Act} {es : List Event}

theorem loopStep_cases {b : Uvloop.Act Req} (hs : s.loopStep b = some (s', es)) :
    ∃ th les, s.threads.step b = some (th, les) ∧ s' = { s with threads := th } ∧
      es = les.map .loop :=
  Uvloop.Threads.map_step_cases hs

theorem step_cases (hs : s.step w a = some (s', es)) : StepCases w s a s' es := by
  unfold step at hs
  split at hs
  · contradiction
  · cases a with
    | registerConnect | registerloopAndStream | setEventHandler | setIPAndAddr =>
      obtain ⟨rfl, rfl⟩ := Prod.mk.inj (Option.some.inj hs)
      constructor
    | run t =>
      obtain ⟨hi, hs⟩ := Option.ite_none_right_eq_some.mp hs
      obtain ⟨th, les, ht, rfl, rfl⟩ := loopStep_cases hs
      exact .loop _ _ th les (.run t hi) ht
    | setRunning t =>
      obtain ⟨th, les, ht, rfl, rfl⟩ := loopStep_cases hs
      exact .loop _ _ th les (.setRunning t) ht
    | stop t =>
      obtain ⟨hi, hs⟩ := Option.ite_none_right_eq_some.mp hs
      obtain ⟨th, les, ht, rfl, rfl⟩ := loopStep_cases hs
      exact .loop _ _ th les (.stop t hi) ht
    | wirteData t buf =>
      obtain ⟨⟨hi, -⟩, hs⟩ := Option.ite_none_right_eq_some.mp hs
      split at hs
      · next hc =>
        obtain ⟨rfl, rfl⟩ := Prod.mk.inj (Option.some.inj hs)
        obtain ⟨hb, hp⟩ := Bool.and_eq_true_iff.mp hc
        exact .checked t buf hi hb hp
      · obtain ⟨rfl, rfl⟩ := Prod.mk.inj (Option.some.inj hs)
        exact .rejected t buf hi
    | takeSend t ma =>
      dsimp only at hs
      split at hs
      · next buf hc =>
        split at hs <;> obtain ⟨rfl, rfl⟩ := Prod.mk.inj (Option.some.inj hs)
        · next r s₁ ht => exact .obtained t ma buf r s₁ hc ht
        · next ht => exact .obtainFault t ma ht
      · contradiction
    | readmem t ma re =>
      dsimp only at hs
      split at hs
      · next r buf hc =>
        split at hs <;> obtain ⟨rfl, rfl⟩ := Prod.mk.inj (Option.some.inj hs)
        · next b ok hr => exact .filled t ma re r buf b ok hc hr
        · exact .fillFault t ma re
      · contradiction
    | request t f =>
      obtain ⟨hi, hs⟩ := Option.ite_none_right_eq_some.mp hs
      split at hs
      · next s₁ req hb =>
        obtain ⟨rfl, rfl⟩ := Prod.mk.inj (Option.some.inj hs)
        exact .requesting t f s₁ req hi hb
      · next s₁ hb =>
        obtain ⟨rfl, rfl⟩ := Prod.mk.inj (Option.some.inj hs)
        have he : s = s₁ := by
          cases f <;> simp [begin] at hb
          exact hb.1
        exact he ▸ .requestRejected t f hi
    | addReq t =>
      dsimp only at hs
      split at hs
      · next req hc =>
        split at hs
        · obtain ⟨rfl, rfl⟩ := Prod.mk.inj (Option.some.inj hs)
          exact .addReqFault t
        · obtain ⟨⟨s₁, es₁⟩, hp, he⟩ := Option.map_eq_some_iff.mp hs
          obtain ⟨rfl, rfl⟩ := Prod.mk.inj he
          obtain ⟨th, les, ht, rfl, rfl⟩ := loopStep_cases hp
          exact .addReq t req th les hc ht
      · contradiction
    | lock t =>
      obtain ⟨⟨s₁, es₁⟩, hp, he⟩ := Option.map_eq_some_iff.mp hs
      obtain ⟨rfl, rfl⟩ := Prod.mk.inj he
      obtain ⟨th, les, ht, rfl, rfl⟩ := loopStep_cases hp
      exact .lock t th les ht
    | turn b =>
      dsimp only at hs
      split at hs
      · contradiction
      · next hb =>
        obtain ⟨⟨s₁, es₁⟩, hp, he⟩ := Option.map_eq_some_iff.mp hs
        obtain ⟨rfl, rfl⟩ := Prod.mk.inj he
        obtain ⟨th, les, ht, rfl, rfl⟩ := loopStep_cases hp
        exact .turn b th les ht fun h => by simpa [h] using hb
    | perform err =>
      dsimp only at hs
      split at hs
      · next req hb =>
        obtain ⟨rfl, rfl⟩ := Prod.mk.inj (Option.some.inj hs)
        exact .perform req err hb
      · contradiction
    | connectCb h status =>
      obtain ⟨⟨hp, ht⟩, hs⟩ := Option.ite_none_right_eq_some.mp hs
      obtain ⟨rfl, rfl⟩ := Prod.mk.inj (Option.some.inj hs)
      exact .connectCb h status hp ht
    | readCb h nread =>
      obtain ⟨⟨hp, ht, hr⟩, hs⟩ := Option.ite_none_right_eq_some.mp hs
      obtain ⟨rfl, rfl⟩ := Prod.mk.inj (Option.some.inj hs)
      exact .readCb h nread hp ht hr
    | writeCb r status =>
      obtain ⟨⟨hp, hw⟩, hs⟩ := Option.ite_none_right_eq_some.mp hs
      obtain ⟨rfl, rfl⟩ := Prod.mk.inj (Option.some.inj hs)
      exact .writeCb r status hp hw
    | closeCb h =>
      obtain ⟨⟨hp, ht⟩, hs⟩ := Option.ite_none_right_eq_some.mp hs
      obtain ⟨rfl, rfl⟩ := Prod.mk.inj (Option.some.inj hs)
      exact .closeCb h hp ht

/-! ## Callbacks -/

inductive PerformCases (s : Uvconnect) (err : ℤ) : Req → Uvconnect → List Event → Prop
  | connect : PerformCases s err .connect (s.connect err).1 (s.connect err).2
  | other (eEventType : EType) (id : ℕ) : PerformCases s err (.other eEventType id) s []
  | skipped (req : Req) : s.bConnectSuccess = false → PerformCases s err req s []
  | fault (req : Req) : (∀ r, req ≠ .tcpWrite r) → s.stream = none →
      PerformCases s err req { s with crashed := true } [.fault]
  | closeConnect (h : ℕ) : s.stream = some h →
      PerformCases s err .closeConnect
        { s with bConnectSuccess := false, tcp := update s.tcp h .closing } [.uvClose h (s.tcp h)]
  | readStart (h : ℕ) : s.bConnectSuccess = true → s.stream = some h →
      PerformCases s err .readStart
        { s with reading := update s.reading h (decide (s.tcp h = .connected)) }
        [.readStart h (s.tcp h)]
  | readStop (h : ℕ) : s.stream = some h →
      PerformCases s err .readStop { s with reading := update s.reading h false } [.readStop h]
  | writeFault (r : ℕ) : s.bConnectSuccess = true → s.stream = none →
      PerformCases s err (.tcpWrite r) { s with
        send := update s.send r { s.send r with tbuf := sendBuf (s.send r) }
        crashed := true } [.fault]
  | write (r h : ℕ) : s.bConnectSuccess = true → s.stream = some h → err = 0 →
      PerformCases s err (.tcpWrite r) { s with
        send := update s.send r { s.send r with tbuf := sendBuf (s.send r) }
        writing := update s.writing r (some (sendBuf (s.send r))) }
        [.uvWrite r h (s.tcp h) ((s.send r).tsafebuf.covered (sendBuf (s.send r)))]
  | writeRefused (r h : ℕ) : s.bConnectSuccess = true → s.stream = some h → err ≠ 0 →
      PerformCases s err (.tcpWrite r) { s with
        send := update s.send r { s.send r with tbuf := sendBuf (s.send r) }
        crashed := true }
        [.uvWrite r h (s.tcp h) ((s.send r).tsafebuf.covered (sendBuf (s.send r))), .fault]

theorem perform_cases (s : Uvconnect) (req : Req) (err : ℤ) :
    PerformCases s err req (s.perform req err).1 (s.perform req err).2 := by
  cases req with
  | connect => exact .connect
  | other => exact .other _ _
  | closeConnect =>
    unfold perform closeConnect
    dsimp only
    split
    · next hst => exact .fault _ (by simp) hst
    · next h hst => exact .closeConnect h hst
  | readStart =>
    unfold perform readStart
    dsimp only
    split
    · next hc => exact .skipped _ hc
    · next hc =>
      split
      · next hst => exact .fault _ (by simp) hst
      · next h hst => exact .readStart h (by simpa using hc) hst
  | readStop =>
    unfold perform readStop
    dsimp only
    split
    · next hst => exact .fault _ (by simp) hst
    · next h hst => exact .readStop h hst
  | tcpWrite r =>
    unfold perform tcpWrite
    dsimp only
    split
    · next hc => exact .skipped _ hc
    · next hc =>
      have hc' : s.bConnectSuccess = true := by simpa using hc
      split
      · next hst => exact .writeFault r hc' hst
      · next h hst =>
        split
        · next he => exact .write r h hc' hst he
        · next he => exact .writeRefused r h hc' hst he

inductive ReadCases (s : Uvconnect) (nread : ℤ) : Uvconnect → List Event → Prop
  | data : 0 ≤ nread → ReadCases s nread s (s.notify .read nread)
  | fault : nread < 0 → s.stream = none → ReadCases s nread { s with crashed := true } [.fault]
  | lost (h : ℕ) : nread < 0 → s.stream = some h →
      ReadCases s nread
        { s with reading := update s.reading h false, bConnectSuccess := false }
        (.readStop h :: s.notify .close 0)

theorem readDone_cases (s : Uvconnect) (nread : ℤ) :
    ReadCases s nread (s.readDone nread).1 (s.readDone nread).2 := by
  unfold readDone
  split
  · next hn => exact .data hn
  · next hn =>
    split
    · next hst => exact .fault (not_le.mp hn) hst
    · next h hst => exact .lost h (not_le.mp hn) hst

inductive ClosedCases (s : Uvconnect) (h : ℕ) : Uvconnect → List Event → Prop
  | done : s.bReconect = false →
      ClosedCases s h { s with tcp := update s.tcp h .closed } []
  | fault : s.bReconect = true → s.ploop = false →
      ClosedCases s h
        { s with tcp := update s.tcp h .closed, bReconect := false, crashed := true } [.fault]
  | refused : s.bReconect = true → s.ploop = true → s.threads.loop.bRunning = false →
      ClosedCases s h { s with tcp := update s.tcp h .closed, bReconect := false }
        [.loop (.refused .stop)]
  | submitted (loop : Uvloop Req) (les : List (Uvloop.Event Req)) : s.bReconect = true →
      s.ploop = true → s.threads.loop.bRunning = true →
      s.threads.loop.submit (.addReq .tcpConnect (some .connect)) = (loop, les) →
      ClosedCases s h { s with
        tcp := update s.tcp h .closed
        bReconect := false
        threads := { s.threads with loop } } (les.map .loop)

theorem closed_cases (s : Uvconnect) (h : ℕ) :
    ClosedCases s h (s.closed h).1 (s.closed h).2 := by
  unfold closed connectToServer
  dsimp only
  split
  · next hr =>
    split
    · next hp => exact .fault hr hp
    · next hp =>
      have hp' : s.ploop = true := by simpa using hp
      split
      · next hrun => exact .submitted _ _ hr hp' hrun rfl
      · next hrun => exact .refused hr hp' (by simpa using hrun)
  · next hr => exact .done (by simpa using hr)

end UvWrapper.Uvconnect
