import LeaseFleet.Proofs.Consumer.ServedShards
import LeaseFleet.Proofs.Worker.WorkBesideConsumers
import LeaseFleet.Simulation.Fleet

/-!
# A round of the process loop

A round looks after the consumers in one indivisible step, and leaves them alone in all that it does
afterwards. So what is true of them after this step (`Worker.Attended`) is what the round has made of
them.
-/

namespace LeaseFleet

/-- A question, or a change that leaves the consumers alone. -/
def Act.LeavesConsumers : Act Worker → Prop
  | asked _ _ => True
  | changed found now => now.consumers = found.consumers ∧ now.crew = found.crew

theorem sparing_leavesConsumers : Sparing Act.LeavesConsumers where
  asked _ _ := trivial
  changed consumers crew := ⟨consumers, crew⟩

/-- A round of the process loop begins with one step that makes of the consumers what it should
(`Worker.Attended`): those that nobody has asked to stop belong to different held leases, and a shard
that the crew refuses makes no difference but for the rejection that is noted. What is left of the
round leaves the consumers alone. -/
theorem round_attends_consumers {worker : Worker} (staffed : worker.Staffed) :
    worker.Attended worker.serve ∧
    (∃ leaseOf : ShardKey → String,
      (∀ {key number}, worker.serve.consumers.get? key = some number →
        worker.serve.crew.isAsked number = false →
          ∃ shard, worker.HoldsShard (leaseOf key) shard ∧ shard.key = key) ∧
      ∀ {key other number second}, worker.serve.consumers.get? key = some number →
        worker.serve.crew.isAsked number = false → worker.serve.consumers.get? other = some second →
          worker.serve.crew.isAsked second = false → leaseOf key = leaseOf other → key = other) ∧
    (∀ {before after shard error}, worker.assignedShards = before ++ shard :: after →
      (before.foldl (Worker.serveShard (.ofLeases worker.coordinator.allLeases)) worker).engage shard =
        .error error →
      worker.serve = { (((before ++ after).foldl
        (Worker.serveShard (.ofLeases worker.coordinator.allLeases)) worker).dismiss
          (worker.assignedShards.map AssignedShard.key)) with rejections := worker.serve.rejections }) ∧
    ∃ rest, Worker.processOnce = .step (fun _ => true) Worker.serve rest ∧
      ∀ found, (rest found).Stays Act.LeavesConsumers := by
  have attended := Worker.attended_serve staffed
  refine ⟨attended, attended.leases, fun shards refused => ?_, _, rfl,
    fun found => sparing_leavesConsumers.routine.restOfRound found⟩
  obtain ⟨rejections, same⟩ := Worker.serve_without_refused shards refused
  rw [same]
  rfl

/-! ### After a split -/

/-- A worker after a split: its consumers are those of the shard that was split, of a shard that it has
lost, and of one that has stopped on its own. The crew refuses a shard. -/
def splitWorker : Worker :=
  let worker := ({ workerId := "w1", region := "r", account := "c" } : WorkerSetup).worker
  let leases : List Lease := [
    { leaseKey := "parent", shardId := "parent", checkpoint := .shardEnd },
    { leaseKey := "child", shardId := "child", parents := .ofList ["parent"] },
    { leaseKey := "grandchild", shardId := "grandchild", parents := .ofList ["child"] },
    { leaseKey := "refused", shardId := "refused" },
    { leaseKey := "weary", shardId := "weary" }]
  { worker with
    coordinator := { worker.coordinator with
      held := .ofList (leases.map fun lease => (lease.leaseKey, { lease, token := ⟨7⟩, lastRenewal := 0 }))
      allLeases := leases }
    crew := {
      places := none
      refuses := fun shard => if shard.leaseKey = "refused" then some "not today" else none
      members := [{ leaseKey := "parent", token := ⟨7⟩ }, { leaseKey := "lost", token := ⟨3⟩ },
        { leaseKey := "weary", token := ⟨7⟩, stopped := true }] }
    consumers := .ofList [({ stream := none, shardId := "parent", token := ⟨7⟩ }, 0),
      ({ stream := none, shardId := "lost", token := ⟨3⟩ }, 1),
      ({ stream := none, shardId := "weary", token := ⟨7⟩ }, 2)] }

/-- The consumers of the split shard and of the lost one are asked to stop, the one that has stopped is
gone, and of the other shards only the child gets a consumer. -/
theorem round_attends_consumers_after_split :
    splitWorker.serve.consumers.entries.map (fun entry => (entry.1.shardId, entry.2)) =
      [("child", 3), ("lost", 1), ("parent", 0)] ∧
    [0, 1, 3].map splitWorker.serve.crew.isAsked = [true, true, false] ∧
    ∃ leaseKey shard, splitWorker.HoldsShard leaseKey shard ∧
      shard.IsDue (.ofLeases splitWorker.coordinator.allLeases) ∧
      splitWorker.serve.crew.origin? 3 = some (shard.leaseKey, shard.token) ∧
      splitWorker.serve.consumers.get? shard.key = some 3 := by
  have staffed : splitWorker.Staffed := Worker.staffed_of_entries (by decide +kernel) (by decide +kernel)
  obtain ⟨attended, _⟩ := round_attends_consumers staffed
  have isNew : splitWorker.crew.members.length ≤ 3 := by decide +kernel
  have started : 3 < splitWorker.serve.crew.members.length := by decide +kernel
  obtain ⟨leaseKey, shard, holds, due, origin, _, found⟩ := attended.new isNew started
  exact ⟨by decide +kernel, by decide +kernel, leaseKey, shard, holds, due, origin, found⟩

end LeaseFleet
