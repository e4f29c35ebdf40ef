import UvWrapper.Connect.Storing
import UvWrapper.Netlib.Storing
import UvWrapper.Client.Basic
import UvWrapper.Connect.Calls
import UvWrapper.Server.Answers
import UvWrapper.Timer.Answers

/-! # What callers are told

The results for the classes side by side: which senders report success for what they have not
stored, and which functions report success for requests that the loop has not taken.
-/

namespace UvWrapper

open Transition Uvloop

/-- Both senders are honest in exactly the runs in which the copies of what they hand on were
granted all they needed, and the lengths of what is written fit. -/
theorem sendersHonest_iff (w : ℕ) (G : Uvconnect → Uvconnect.Act → Prop)
    (H : Netlibuv → Netlibuv.Act → Prop) :
    (Uvconnect.SendsHonest w G ↔ (Uvconnect.copying w).Always
      (fun p a => Uvconnect.typed p.1 a ∧ G p.1 a) (Uvconnect.storable w)) ∧
    (Netlibuv.SendsHonest w H ↔ (Netlibuv.copying w).Always (fun q => H q.1)
      (Netlibuv.storable w)) :=
  ⟨Uvconnect.sendsHonest_iff w G, Netlibuv.sendsHonest_iff w H⟩

theorem not_sendersHonest :
    ¬ (Uvconnect.SendsHonest 32 (anyStep _ _) ∧ Netlibuv.SendsHonest 32 (anyStep _ _)) :=
  fun h => Uvconnect.not_sendsHonest h.1

namespace TcpClient

theorem truthfulWhen (w : ℕ) :
    TruthfulWhen (client w) Uvconnect.Event.result Uvconnect.Event.answer (anyStep _ _) := by
  intro s a s' es hs
  apply iff_of_true _ trivial
  rcases conn_of_step hs with ⟨-, rfl⟩ | ⟨b, hb⟩
  · exact onlyIfTaken_of_notMem List.not_mem_nil
  · exact Uvconnect.onlyIfTaken_of_step hb

end TcpClient

/-- In any state, a function of the connection or of the client reports success only for a
request that the loop has taken. Of the timer and the server this is so exactly where the two
functions that drop the answer get no other. -/
theorem requestsTruthful_iff (w : ℕ) :
    TruthfulWhen (Uvconnect.connection w) Uvconnect.Event.result Uvconnect.Event.answer
      (anyStep _ _) ∧
    TruthfulWhen (TcpClient.client w) Uvconnect.Event.result Uvconnect.Event.answer
      (anyStep _ _) ∧
    TruthfulWhen Uvtimer.timed Uvtimer.Event.result Uvtimer.Event.answer Uvtimer.restartTaken ∧
    TruthfulWhen TcpServer.serving TcpServer.Event.result TcpServer.Event.answer
      TcpServer.listenTaken := by
  refine ⟨?_, TcpClient.truthfulWhen w, Uvtimer.truthfulWhen, TcpServer.truthfulWhen⟩
  intro s a s' es hs
  exact iff_of_true (Uvconnect.onlyIfTaken_of_step hs) trivial

theorem not_requestsTruthful :
    ¬ (Truthful (Uvconnect.connection 32) Uvconnect.Event.result Uvconnect.Event.answer ∧
      Truthful (TcpClient.client 32) Uvconnect.Event.result Uvconnect.Event.answer ∧
      Truthful Uvtimer.timed Uvtimer.Event.result Uvtimer.Event.answer ∧
      Truthful TcpServer.serving TcpServer.Event.result TcpServer.Event.answer) :=
  fun h => TcpServer.not_truthful h.2.2.2

end UvWrapper
