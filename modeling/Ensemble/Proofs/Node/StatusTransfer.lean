import Ensemble.Proofs.Node.Reachable

/-!
# A status is transferred without loss

The queue of a reachable node is never longer than a message may carry, a reader accepts, and a
player takes over. So a question for the status is always answered with all of it, and whoever takes
over the answer has the same status.

* `Node.receive_query` — how a question for the status is answered.
* `Node.receive_status_of_open` — what becomes of the answer.
* `status_transfer_lossless` — both, for every node that can come about.
-/

namespace Ensemble

namespace Node

variable {n : Node}

/-- A question for the status is answered with it, and changes nothing. -/
theorem receive_query (h : n.player.Bounded) {bytes : Bytes}
    (hask : Message.decode bytes = .ok .queryStatus) (sender : Endpoint) :
    ∃ reply, n.receive bytes sender = ⟨n, ⟨true, reply⟩, []⟩ ∧
      Message.decode reply = .ok (.sendStatus n.status) := by
  obtain ⟨reply, hencode, -⟩ := Message.exists_encode h.withinBounds
  refine ⟨reply, ?_, Message.decode_of_encode hencode⟩
  have hanswer : n.statusAnswer = ⟨true, reply⟩ := by
    rw [statusAnswer, status, hencode]
  simp only [receive, hask, handle, hanswer]

/-- A node that neither leads nor has the gate on takes over every status, silently. -/
theorem receive_status_of_open (hfollows : n.view.isCoordinator = false)
    (hgate : n.config.coordinatorOnly = false) {bytes : Bytes} {s : PlaybackStatus}
    (hdecode : Message.decode bytes = .ok (.sendStatus s)) (sender : Endpoint) :
    n.receive bytes sender = ⟨{ n with player := n.player.setStatus s }, Answer.none, []⟩ := by
  have htrusts : n.trusts sender = true := by
    rw [trusts, hgate]
    rfl
  rw [receive_status hdecode, onStatus, hfollows, if_neg Bool.false_ne_true, if_pos htrusts]
  rfl

end Node

/-- In every node that can come about, and so after every run of a station, at most 128 songs are
queued. So a question for the status is always answered, in bytes that hold exactly the node's
status, and neither changes the node nor sends anything. A node that neither leads nor has the gate
on then has this status in all its parts, until its own timer runs. -/
theorem status_transfer_lossless :
    (∀ (config : NodeConfig) (tick : Nat) (song : SongId) (target : String)
      (steps : List StationStep),
      ((Station.start config tick song).run target steps).node.Reachable) ∧
    ∀ n : Node, n.Reachable →
      n.player.queue.length ≤ 128 ∧
      ∀ (bytes : Bytes) (asker : Endpoint), Message.decode bytes = .ok .queryStatus →
        ∃ reply, n.receive bytes asker = ⟨n, ⟨true, reply⟩, []⟩ ∧
          Message.decode reply = .ok (.sendStatus n.status) ∧
          ∀ (receiver : Node) (sender : Endpoint), receiver.view.isCoordinator = false →
            receiver.config.coordinatorOnly = false →
              (receiver.receive reply sender).node.status = n.status := by
  refine ⟨fun config tick song target steps => ?_, fun n hn => ⟨hn.bounded, ?_⟩⟩
  · exact Station.reachable_run (Station.reachable_start config tick song) target steps
  · intro bytes asker hask
    obtain ⟨reply, hanswer, hdecode⟩ := Node.receive_query hn.bounded hask asker
    refine ⟨reply, hanswer, hdecode, fun receiver sender hfollows hgate => ?_⟩
    rw [Node.receive_status_of_open hfollows hgate hdecode]
    exact hn.bounded.status_setStatus receiver.player

/-- A player takes over a paused status with a queue that is too long, and then drops a song. -/
def crowdedStation : Station :=
  (Station.start ⟨43210, 2000, 1, true⟩ 1000 1).run "10.255.0.1:1738"
    [.player (.setStatus ⟨3, 17, true, List.replicate 200 2⟩), .enqueue 4]

/-- All 128 songs that are left reach a node that plays something else. -/
theorem status_transfer_lossless_crowded :
    crowdedStation.node.player.queue = List.replicate 128 2 ∧
      ∃ reply, crowdedStation.node.receive [4] ⟨.v4 ⟨10, 0, 0, 2⟩, 50000⟩ =
          ⟨crowdedStation.node, ⟨true, reply⟩, []⟩ ∧
        ((Node.start ⟨43210, 2000, 1, false⟩ (Player.start 5)).receive reply
          ⟨.v4 ⟨10, 0, 0, 1⟩, 50000⟩).node.status = ⟨3, 17, true, List.replicate 128 2⟩ := by
  obtain ⟨hreachable, hlossless⟩ := status_transfer_lossless
  have hreached : crowdedStation.node.Reachable := hreachable _ _ _ _ _
  have hqueue : crowdedStation.node.player.queue = List.replicate 128 2 := by decide +kernel
  obtain ⟨reply, hanswer, -, htransfer⟩ := (hlossless _ hreached).2 [4]
    ⟨.v4 ⟨10, 0, 0, 2⟩, 50000⟩ (by decide +kernel)
  refine ⟨hqueue, reply, hanswer, ?_⟩
  rw [htransfer _ _ (by decide +kernel) rfl]
  decide +kernel

end Ensemble
