import UvWrapper.Server.Basic
import UvWrapper.Loop.Answers

/-! # What the server's functions return

`listen` returns whether the loop has taken its request. `tcpListen` drops that and returns
true, also where the loop is stopped by then or all its handles are in use.
-/

namespace UvWrapper.TcpServer

open Transition Uvloop

variable {s s' : TcpServer} {a : Act} {es : List Event} {t : ℕ} {req : Req}

def Event.result : Event → Option Bool
  | .returned _ ok => some ok
  | _ => none

def Event.answer : Event → Option LoopErr
  | .loop e => e.answer
  | _ => none

/-- Where `tcpListen` asks to listen, the loop takes the request. -/
def listenTaken (s : TcpServer) : Act → Prop
  | .addReq t => s.call t = .serving → s.listner.ploop = true → s.threads.loop.bRunning = true
  | .lock t => s.call t = .serving → s.threads.loop.dAsync ≠ []
  | _ => True

theorem result_loop (les : List (Uvloop.Event Req)) :
    (les.map Event.loop).filterMap Event.result = [] := filterMap_loop (fun _ => rfl) les

theorem Caller.result_honest {c : Caller} {err : LoopErr} :
    (c.result err = true → err = .noErr) ↔ (c = .serving → err = .noErr) := by
  cases c <;> simp [Caller.result]

theorem loopStep_cases {b : Uvloop.Act Req} (hs : s.loopStep b = some (s', es)) :
    ∃ th les, s.threads.step b = some (th, les) ∧ s' = { s with threads := th } ∧
      es = les.map .loop :=
  Uvloop.Threads.map_step_cases hs

/-- What a step does for those who have called a function: nothing, or the call of `AddReq`
ends and the function with it. -/
inductive CallCases (s : TcpServer) : Act → List Event → Prop
  | quiet (a : Act) (es : List Event) : s.listenTaken a → es.filterMap Event.result = [] →
      CallCases s a es
  | refused (t : ℕ) (req : Req) (th : Uvloop.Threads Req) (les : List (Uvloop.Event Req)) :
      (s.call t).request = some req →
      s.threads.step (.call t (.addReq req.eType (some req))) = some (th, les) →
      s.threads.loop.bRunning = false → (req = .serverListenStart → s.listner.ploop = true) →
      CallCases s (.addReq t) (les.map .loop ++ [.returned t ((s.call t).result .stop)])
  | lock (t : ℕ) (th : Uvloop.Threads Req) (les : List (Uvloop.Event Req)) (err : LoopErr) :
      s.threads.step (.lock t) = some (th, les) →
      err = (if s.threads.loop.dAsync = [] then .busy else .noErr) →
      CallCases s (.lock t) (les.map .loop ++ [.returned t ((s.call t).result err)])

/-! ## Steps that end no call -/

theorem configure_events {iErr : ℤ} (hs : s.configure t iErr = some (s', es)) :
    es.filterMap Event.result = [] := by
  unfold configure at hs
  split at hs
  · cases hs
    rfl
  · cases hs
    rfl
  · split at hs <;> cases hs <;> rfl
  · cases hs
    rfl
  · cases hs

theorem launch_events (hs : s.launch t = some (s', es)) : es.filterMap Event.result = [] := by
  unfold launch at hs
  split at hs
  · obtain ⟨th, les, -, -, rfl⟩ := loopStep_cases hs
    exact result_loop les
  · split at hs
    · cases hs
      rfl
    · obtain ⟨⟨s₁, es₁⟩, hp, he⟩ := Option.map_eq_some_iff.mp hs
      obtain ⟨th, les, -, -, rfl⟩ := loopStep_cases hp
      cases he
      exact result_loop les
  · cases hs

theorem perform_events (s : TcpServer) (req : Req) (ini bnd lis : ℤ) :
    (s.perform req ini bnd lis).2.filterMap Event.result = [] := by
  cases req with
  | other => rfl
  | serverListenStart =>
    simp only [perform, serverListenStart, crash]
    cases s.listner.server <;> (split; rfl; split <;> rfl)

theorem connected_events (s : TcpServer) (status ini acc : ℤ) :
    (s.connected status ini acc).2.filterMap Event.result = [] := by
  unfold connected
  split
  · rfl
  · dsimp only
    split
    · rfl
    · split
      · rfl
      · split <;> rfl

theorem call_cases (hs : s.step a = some (s', es)) : CallCases s a es := by
  obtain ⟨-, hs⟩ := Option.ite_none_left_eq_some.mp hs
  cases a with
  | registerAccept | setNewConnectCallback =>
    cases hs
    exact .quiet _ _ trivial rfl
  | setIPAndPort phost port iErr =>
    dsimp only at hs
    split at hs <;> cases hs <;> exact .quiet _ _ trivial rfl
  | run t => exact .quiet _ _ trivial (launch_events hs)
  | setRunning t =>
    obtain ⟨⟨s₁, es₁⟩, hp, he⟩ := Option.map_eq_some_iff.mp hs
    obtain ⟨th, les, -, -, rfl⟩ := loopStep_cases hp
    cases he
    exact .quiet _ _ trivial (result_loop les)
  | stop t =>
    obtain ⟨-, hs⟩ := Option.ite_none_right_eq_some.mp hs
    obtain ⟨th, les, -, -, rfl⟩ := loopStep_cases hs
    exact .quiet _ _ trivial (result_loop les)
  | request t f =>
    obtain ⟨-, hs⟩ := Option.ite_none_right_eq_some.mp hs
    cases hs
    exact .quiet _ _ trivial rfl
  | configure t iErr => exact .quiet _ _ trivial (configure_events hs)
  | addReq t =>
    dsimp only at hs
    split at hs
    · next req hc =>
      split at hs
      · next hp =>
        cases hs
        refine .quiet _ _ (fun _ hp' => ?_) rfl
        cases hp.2.symm.trans hp'
      · next hp =>
        obtain ⟨⟨s₁, es₁⟩, hl, he⟩ := Option.map_eq_some_iff.mp hs
        obtain ⟨th, les, ht, rfl, rfl⟩ := loopStep_cases hl
        split at he
        · next hr =>
          cases he
          exact .quiet _ _ (fun _ _ => hr) (result_loop les)
        · next hr =>
          simp only [finish, hc] at he
          cases he
          refine .refused t req th les hc ht (by simpa using hr) fun hreq => ?_
          simpa [hreq] using hp
    · cases hs
  | lock t =>
    obtain ⟨⟨s₁, es₁⟩, hl, he⟩ := Option.map_eq_some_iff.mp hs
    obtain ⟨th, les, ht, rfl, rfl⟩ := loopStep_cases hl
    cases hc : (s.call t).request with
    | none =>
      simp only [finish, hc] at he
      cases he
      refine .quiet _ _ (fun hcall => ?_) (result_loop les)
      cases hcall ▸ hc
    | some req =>
      simp only [finish, hc] at he
      cases he
      exact .lock t th les _ ht rfl
  | turn b =>
    obtain ⟨-, hs⟩ := Option.ite_none_right_eq_some.mp hs
    obtain ⟨⟨s₁, es₁⟩, hp, he⟩ := Option.map_eq_some_iff.mp hs
    obtain ⟨th, les, -, -, rfl⟩ := loopStep_cases hp
    cases he
    exact .quiet _ _ trivial (result_loop les)
  | perform ini bnd lis =>
    dsimp only at hs
    split at hs
    · next req hb =>
      have he : _ = es := congrArg Prod.snd (Option.some.inj hs)
      rw [← he]
      exact .quiet _ _ trivial (perform_events _ req ini bnd lis)
    · cases hs
  | connectionCb h status ini acc =>
    obtain ⟨-, hs⟩ := Option.ite_none_right_eq_some.mp hs
    have he : _ = es := congrArg Prod.snd (Option.some.inj hs)
    rw [← he]
    exact .quiet _ _ trivial (connected_events s status ini acc)

/-! ## Steps that end a call -/

theorem onlyIfTaken_finish {les : List (Uvloop.Event Req)} {err : LoopErr}
    (h : les.filterMap Uvloop.Event.answer = [err])
    (he : es = les.map .loop ++ [.returned t ((s.call t).result err)]) :
    OnlyIfTaken (es.filterMap Event.result) (es.filterMap Event.answer) ↔
      (s.call t = .serving → err = .noErr) := by
  rw [he]
  apply Iff.trans _ Caller.result_honest
  exact onlyIfTaken_end (fun _ => rfl) (fun _ => rfl) h rfl rfl

/-- The functions of the server report success only for requests that the loop has taken,
exactly if that is so where `tcpListen` asks to listen. -/
theorem truthfulWhen : TruthfulWhen serving Event.result Event.answer listenTaken := by
  intro s a s' es (hs : s.step a = some (s', es))
  cases call_cases hs with
  | quiet _ _ hc hq =>
    apply iff_of_true _ hc
    rw [hq]
    exact onlyIfTaken_of_notMem List.not_mem_nil
  | refused t req th les hc ht hr hp =>
    have ha : les.filterMap Uvloop.Event.answer = [.stop] := by
      rw [answers_of_call ht, hr]
      rfl
    apply (onlyIfTaken_finish ha rfl).trans
    constructor
    · intro h hcall
      cases h hcall
    · intro h hcall
      rw [hcall] at hc
      cases hr.symm.trans (h hcall (hp (Option.some.inj hc).symm))
  | lock t th les err ht he =>
    have ha : les.filterMap Uvloop.Event.answer = [err] := by rw [answers_of_lock ht, he]
    apply (onlyIfTaken_finish ha rfl).trans
    rw [he]
    apply imp_congr_right
    simp

theorem not_truthful : ¬ Truthful serving Event.result Event.answer := by
  intro h
  obtain ⟨tr, s, hr, hp⟩ := System.exists_run_of_exec (M := serving) (G := anyStep TcpServer Act)
    (s := create fun _ => .loopStop)
    ([.run 1, .setRunning 1] ++
      (List.range asyncHandles).flatMap (fun i => [.request 1 (.other .tcpWrite i), .addReq 1,
        .lock 1]) ++
      [.request 1 (.tcpListen "0.0.0.0" 12396 (some 0)), .configure 1 0, .configure 1 0,
        .configure 1 0, .configure 1 0, .addReq 1])
    (p := fun s _ => decide (s.call 1 = .serving ∧ s.threads.loop.dAsync = [] ∧
      (s.step (.lock 1)).isSome = true))
    (by decide +kernel)
  obtain ⟨hc, hd, hs⟩ := of_decide_eq_true hp
  obtain ⟨⟨s', es⟩, hs⟩ := Option.isSome_iff_exists.mp hs
  exact truthfulWhen.always.mp h tr s (.lock 1) s' es ⟨_, ⟨_, rfl⟩, hr⟩ trivial hs hc hd

end UvWrapper.TcpServer
