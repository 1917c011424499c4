import LeaseFleet.Proofs.Consumer.CrewNumbers

/-!
# Looking after the consumers

One pass of the process loop over the shards that the worker holds. What it does with one of them
is a step (`Served.step`) that creates a consumer only for a shard that is due and has none, and asks a
consumer to stop only if its shard is consumed to its end. The dismissal that follows asks all others,
so that a consumer that nobody has asked belongs to a held lease (`attended_serve`). A shard that the
crew refuses makes no difference to the others (`serve_without_refused`).
-/

namespace LeaseFleet

/-- The shard is to be consumed: it has not been consumed to its end, and its parents are, as far as
the table knows them. -/
structure AssignedShard.IsDue (shard : AssignedShard) (table : LeaseTable) : Prop where
  unfinished : shard.checkpoint.isShardEnd = false
  parents : ∀ {parentKey parent}, parentKey ∈ shard.parentLeaseKeys →
    table.get? parentKey = some parent → parent.isShardEnd = true

theorem AssignedShard.unfinishedParent_eq_none {shard : AssignedShard} {table : LeaseTable}
    (none : shard.unfinishedParent table = none) {parentKey : String} {parent : Lease}
    (mem : parentKey ∈ shard.parentLeaseKeys) (found : table.get? parentKey = some parent) :
    parent.isShardEnd = true := by
  have finished := List.find?_eq_none.1 none parentKey mem
  simpa [found] using finished

namespace Worker

variable {table : LeaseTable} {start now : Worker} {done : List AssignedShard} {key : ShardKey} {number : Nat}

/-- What looking after one shard comes to: its consumer is asked to stop at the end of the shard,
nothing happens, a consumer is put to work on a shard that is due and has none, or the crew refuses. -/
theorem serveShard_cases (table : LeaseTable) (worker : Worker) (shard : AssignedShard) :
    (shard.checkpoint.isShardEnd = true ∧ serveShard table worker shard = worker.finishShard shard) ∨
    serveShard table worker shard = worker ∨
    (∃ crew, shard.IsDue table ∧ worker.consumers.get? shard.key = none ∧
      worker.crew.start shard = .ok (worker.crew.members.length, crew) ∧
      worker.engage shard = .ok (worker.crew.members.length, serveShard table worker shard) ∧
      serveShard table worker shard = { worker with
        crew, consumers := worker.consumers.insert shard.key worker.crew.members.length }) ∨
    ∃ rejection, serveShard table worker shard = worker.reject rejection := by
  unfold serveShard
  split
  · rename_i isEnd
    exact .inl ⟨isEnd, rfl⟩
  · rename_i notEnd
    split
    · exact .inr (.inl rfl)
    · rename_i noParent
      have due : shard.IsDue table :=
        ⟨by simpa using notEnd, AssignedShard.unfinishedParent_eq_none (by simpa using noParent)⟩
      rcases worker.engage_cases shard with ⟨_, _, same⟩ | ⟨crew, absent, started, same⟩ | ⟨error, _, same⟩
      · rw [same]
        exact .inr (.inl rfl)
      · rw [same]
        exact .inr (.inr (.inl ⟨crew, due, absent, started, rfl, rfl⟩))
      · rw [same]
        exact .inr (.inr (.inr ⟨_, rfl⟩))

/-- What has become of a worker when it has looked after some shards. -/
structure Served (table : LeaseTable) (start now : Worker) (done : List AssignedShard) : Prop where
  staffed : now.Staffed
  grown : start.crew.members.length ≤ now.crew.members.length
  /-- Every consumer stays with its shard. -/
  kept : ∀ {key number}, start.consumers.get? key = some number → now.consumers.get? key = some number
  old : ∀ {key number}, now.consumers.get? key = some number → number < start.crew.members.length →
    start.consumers.get? key = some number
  /-- Every new consumer is one for a shard that was due and had none. -/
  new : ∀ {number}, start.crew.members.length ≤ number → number < now.crew.members.length →
    ∃ shard ∈ done, now.consumers.get? shard.key = some number ∧
      start.consumers.get? shard.key = none ∧ shard.IsDue table ∧
        now.crew.origin? number = some (shard.leaseKey, shard.token)
  stopped : ∀ number, now.crew.isStopped number = start.crew.isStopped number
  stillAsked : ∀ {number}, start.crew.isAsked number = true → now.crew.isAsked number = true
  /-- A consumer is asked to stop at the end of its shard only. -/
  asked : ∀ {number}, now.crew.isAsked number = true → start.crew.isAsked number = true ∨
    ∃ shard ∈ done, shard.checkpoint.isShardEnd = true ∧ now.consumers.get? shard.key = some number

namespace Served

theorem refl (staffed : start.Staffed) (table : LeaseTable) : Served table start start [] where
  staffed
  grown := Nat.le_refl _
  kept := id
  old found _ := found
  new from_ upTo := absurd upTo (Nat.not_lt.2 from_)
  stopped _ := rfl
  stillAsked := id
  asked := .inl

/-- Nothing that matters here has changed with the shard. -/
theorem same {after : Worker} (served : Served table start now done) (shard : AssignedShard)
    (consumers : after.consumers = now.consumers) (crew : after.crew = now.crew) :
    Served table start after (done ++ [shard]) where
  staffed := served.staffed.of_fewer (fun found => consumers ▸ found) (crew ▸ Nat.le_refl _)
  grown := crew ▸ served.grown
  kept found := consumers ▸ served.kept found
  old found := served.old (consumers ▸ found)
  new from_ upTo := by
    obtain ⟨other, mem, rest⟩ := served.new from_ (crew ▸ upTo)
    rw [consumers, crew]
    exact ⟨other, List.mem_append_left _ mem, rest⟩
  stopped number := by rw [crew, served.stopped]
  stillAsked asked := by rw [crew, served.stillAsked asked]
  asked isAsked := by
    rw [consumers]
    refine (served.asked (crew ▸ isAsked)).imp_right ?_
    rintro ⟨other, mem, rest⟩
    exact ⟨other, List.mem_append_left _ mem, rest⟩

/-- At the end of a shard its consumer is asked to stop. -/
theorem finish (served : Served table start now done) {shard : AssignedShard}
    (isEnd : shard.checkpoint.isShardEnd = true) :
    Served table start (now.finishShard shard) (done ++ [shard]) := by
  unfold finishShard
  split
  · rename_i number found
    refine ⟨served.staffed.of_fewer id (by simp), by simpa using served.grown, served.kept, served.old,
      fun from_ upTo => ?_, fun other => ?_, fun asked => ?_, fun asked => ?_⟩
    · obtain ⟨other, mem, rest⟩ := served.new from_ (by simpa using upTo)
      exact ⟨other, List.mem_append_left _ mem, by simpa using rest⟩
    · rw [Crew.isStopped_askOnce, served.stopped]
    · exact Crew.isAsked_askOnce.2 (.inl (served.stillAsked asked))
    · rcases Crew.isAsked_askOnce.1 asked with before | ⟨rfl, _⟩
      · refine (served.asked before).imp_right ?_
        rintro ⟨other, mem, rest⟩
        exact ⟨other, List.mem_append_left _ mem, rest⟩
      · exact .inr ⟨shard, List.mem_append_right _ List.mem_cons_self, isEnd, found⟩
  · exact served.same shard rfl rfl

/-- A consumer is put to work on a shard that is due and has none. -/
theorem engage (served : Served table start now done) {shard : AssignedShard} {crew : Crew}
    (due : shard.IsDue table) (absent : now.consumers.get? shard.key = none)
    (started : now.crew.start shard = .ok (now.crew.members.length, crew))
    (engaged : now.engage shard = .ok (now.crew.members.length, { now with
      crew, consumers := now.consumers.insert shard.key now.crew.members.length })) :
    Served table start { now with
      crew, consumers := now.consumers.insert shard.key now.crew.members.length } (done ++ [shard]) := by
  have length : crew.members.length = now.crew.members.length + 1 := by
    rw [Crew.members_of_start started, List.length_append]
    rfl
  have notHere {key : ShardKey} {number : Nat} (found : now.consumers.get? key = some number) :
      key ≠ shard.key := by
    rintro rfl
    cases absent.symm.trans found
  have stays {key : ShardKey} {number : Nat} (found : now.consumers.get? key = some number) :
      (now.consumers.insert shard.key now.crew.members.length).get? key = some number :=
    SortedMap.get?_insert_eq_some_iff.2 (.inr ⟨notHere found, found⟩)
  have absentAtFirst : start.consumers.get? shard.key = none := by
    cases found : start.consumers.get? shard.key with
    | none => rfl
    | some number => cases absent.symm.trans (served.kept found)
  refine ⟨served.staffed.engage engaged, ?_, fun found => stays (served.kept found), fun found isOld => ?_,
    fun {number} from_ upTo => ?_, fun number => ?_, fun asked => ?_, fun asked => ?_⟩
  · exact length ▸ Nat.le_succ_of_le served.grown
  · rcases SortedMap.get?_insert_eq_some_iff.1 found with ⟨_, rfl⟩ | ⟨_, found⟩
    · exact absurd served.grown (Nat.not_le.2 isOld)
    · exact served.old found isOld
  · by_cases isNew : number = now.crew.members.length
    · subst isNew
      refine ⟨shard, List.mem_append_right _ List.mem_cons_self, SortedMap.get?_insert_self .., absentAtFirst,
        due, ?_⟩
      simp [Crew.origin?, Crew.member?_of_start started]
    · have earlier : number < now.crew.members.length := by
        have bound : number < now.crew.members.length + 1 := length ▸ upTo
        omega
      obtain ⟨other, mem, found, before, otherDue, origin⟩ := served.new from_ earlier
      refine ⟨other, List.mem_append_left _ mem, stays found, before, otherDue, ?_⟩
      rw [← origin]
      simp [Crew.origin?, Crew.member?_of_start started, isNew]
  · rw [Crew.isStopped_of_start started, served.stopped]
  · rw [Crew.isAsked_of_start started, served.stillAsked asked]
  · rw [Crew.isAsked_of_start started] at asked
    refine (served.asked asked).imp_right ?_
    rintro ⟨other, mem, isEnd, found⟩
    exact ⟨other, List.mem_append_left _ mem, isEnd, stays found⟩

theorem step (served : Served table start now done) (shard : AssignedShard) :
    Served table start (serveShard table now shard) (done ++ [shard]) := by
  rcases serveShard_cases table now shard with
    ⟨isEnd, same⟩ | same | ⟨crew, due, absent, started, engaged, same⟩ | ⟨rejection, same⟩
  · rw [same]
    exact served.finish isEnd
  · rw [same]
    exact served.same shard rfl rfl
  · rw [same] at engaged ⊢
    exact served.engage due absent started engaged
  · rw [same]
    exact served.same shard rfl rfl

theorem run (served : Served table start now done) (shards : List AssignedShard) :
    Served table start (shards.foldl (serveShard table) now) (done ++ shards) := by
  induction shards generalizing now done with
  | nil => simpa using served
  | cons shard rest ih => simpa using ih (served.step shard)

end Served

/-! ## The whole pass -/

/-- The key of a lease that the worker holds tells which shard it consumes. -/
def HoldsShard (worker : Worker) (leaseKey : String) (shard : AssignedShard) : Prop :=
  ∃ held, worker.coordinator.held.get? leaseKey = some held ∧ shard = .ofLease held.lease held.token

theorem mem_assignedShards {worker : Worker} {shard : AssignedShard} :
    shard ∈ worker.assignedShards ↔ ∃ leaseKey, worker.HoldsShard leaseKey shard := by
  unfold assignedShards HoldsShard
  simp only [List.mem_map, SortedMap.mem_values]
  constructor
  · rintro ⟨held, ⟨leaseKey, found⟩, rfl⟩
    exact ⟨leaseKey, held, found, rfl⟩
  · rintro ⟨leaseKey, held, found, rfl⟩
    exact ⟨held, ⟨leaseKey, found⟩, rfl⟩

/-- What has become of a worker's consumers after a pass over the shards that it holds. A consumer that
was there before has a number below the size of the crew as it was. -/
structure Attended (worker after : Worker) : Prop where
  staffed : after.Staffed
  /-- A new consumer is one for a held shard that is due and had none. -/
  new : ∀ {number}, worker.crew.members.length ≤ number → number < after.crew.members.length →
    ∃ leaseKey shard, worker.HoldsShard leaseKey shard ∧
      shard.IsDue (.ofLeases worker.coordinator.allLeases) ∧
      after.crew.origin? number = some (shard.leaseKey, shard.token) ∧
      worker.consumers.get? shard.key = none ∧ after.consumers.get? shard.key = some number
  /-- A shard that had a consumer has no other one, and loses it only when it has stopped. -/
  kept : ∀ {key number}, worker.consumers.get? key = some number → after.consumers.get? key = some number ∨
    after.consumers.get? key = none ∧ worker.crew.isStopped number = true
  /-- No consumer that has stopped is left. -/
  working : ∀ {key number}, after.consumers.get? key = some number → after.crew.isStopped number = false
  /-- A consumer that is left for a shard that is not held has been asked to stop. -/
  unassigned : ∀ {key number}, after.consumers.get? key = some number →
    (∀ leaseKey shard, worker.HoldsShard leaseKey shard → shard.key ≠ key) →
      after.crew.isAsked number = true
  /-- The consumer of a held shard is asked to stop only at the end of the shard. -/
  assigned : ∀ {key number}, (∃ leaseKey shard, worker.HoldsShard leaseKey shard ∧ shard.key = key) →
    worker.consumers.get? key = some number ∨ after.consumers.get? key = some number →
    after.crew.isAsked number = true → worker.crew.isAsked number = true ∨
      ∃ leaseKey shard, worker.HoldsShard leaseKey shard ∧ shard.key = key ∧
        shard.checkpoint.isShardEnd = true

section

variable {worker : Worker} (staffed : worker.Staffed)

include staffed

theorem served_all : Served (.ofLeases worker.coordinator.allLeases) worker
    (worker.assignedShards.foldl (serveShard (.ofLeases worker.coordinator.allLeases)) worker)
      worker.assignedShards :=
  (Served.refl staffed _).run worker.assignedShards

theorem attended_serve : worker.Attended worker.serve := by
  have served := served_all staffed
  unfold serve
  dsimp only
  generalize worker.assignedShards.foldl (serveShard (.ofLeases worker.coordinator.allLeases)) worker = now
    at served ⊢
  have asks := now.asksOnly_askOthers (worker.assignedShards.map AssignedShard.key)
  have length : (now.dismiss (worker.assignedShards.map AssignedShard.key)).crew.members.length =
      now.crew.members.length := asks.length
  -- a new consumer cannot have stopped, as none has stopped with its number before
  have notStopped {number : Nat} (isNew : worker.crew.members.length ≤ number) :
      now.crew.isStopped number = false := by
    rw [served.stopped]
    simp [Crew.isStopped, Crew.member?, List.getElem?_eq_none isNew]
  have isHeld {key : ShardKey} : key ∈ worker.assignedShards.map AssignedShard.key ↔
      ∃ leaseKey shard, worker.HoldsShard leaseKey shard ∧ shard.key = key := by
    simp only [List.mem_map, mem_assignedShards]
    constructor
    · rintro ⟨shard, ⟨leaseKey, holds⟩, same⟩
      exact ⟨leaseKey, shard, holds, same⟩
    · rintro ⟨leaseKey, shard, holds, same⟩
      exact ⟨shard, ⟨leaseKey, holds⟩, same⟩
  refine ⟨served.staffed.dismiss _, fun {number} from_ upTo => ?_, fun {key number} found => ?_,
    fun {key number} found => ?_, fun {key number} found lost => ?_, fun {key number} held found asked => ?_⟩
  · obtain ⟨shard, mem, found, absent, due, origin⟩ := served.new from_ (length ▸ upTo)
    obtain ⟨leaseKey, holds⟩ := mem_assignedShards.1 mem
    exact ⟨leaseKey, shard, holds, due, (asks.origin number).trans origin, absent,
      get?_dismiss.2 ⟨found, notStopped from_⟩⟩
  · have stays := served.kept found
    cases stopped : worker.crew.isStopped number with
    | false => exact .inl (get?_dismiss.2 ⟨stays, (served.stopped number).trans stopped⟩)
    | true =>
      refine .inr ⟨?_, rfl⟩
      cases left : (now.dismiss (worker.assignedShards.map AssignedShard.key)).consumers.get? key with
      | none => rfl
      | some other =>
        obtain ⟨same, working⟩ := get?_dismiss.1 left
        obtain rfl := Option.some.inj (stays.symm.trans same)
        rw [served.stopped, stopped] at working
        cases working
  · exact (asks.stopped number).trans (get?_dismiss.1 found).2
  · have there := (get?_dismiss.1 found).1
    refine (asks.asked number).2 (.inr ⟨⟨key, there, fun mem => ?_⟩, served.staffed.known there⟩)
    obtain ⟨leaseKey, shard, holds, same⟩ := isHeld.1 mem
    exact lost leaseKey shard holds same
  · have there : now.consumers.get? key = some number :=
      found.elim served.kept fun found => (get?_dismiss.1 found).1
    rcases (asks.asked number).1 asked with asked | ⟨⟨other, here, lost⟩, _⟩
    · refine (served.asked asked).imp_right ?_
      rintro ⟨shard, mem, isEnd, here⟩
      obtain ⟨leaseKey, holds⟩ := mem_assignedShards.1 mem
      exact ⟨leaseKey, shard, holds, served.staffed.distinct here there, isEnd⟩
    · obtain rfl := served.staffed.distinct here there
      exact absurd (isHeld.2 held) lost

end

/-- The consumers that nobody has asked to stop belong to different leases that the worker holds. -/
theorem Attended.leases {worker after : Worker} (attended : worker.Attended after) :
    ∃ leaseOf : ShardKey → String,
      (∀ {key number}, after.consumers.get? key = some number → after.crew.isAsked number = false →
        ∃ shard, worker.HoldsShard (leaseOf key) shard ∧ shard.key = key) ∧
      ∀ {key other number second}, after.consumers.get? key = some number →
        after.crew.isAsked number = false → after.consumers.get? other = some second →
          after.crew.isAsked second = false → leaseOf key = leaseOf other → key = other := by
  have belongs {key : ShardKey} {number : Nat} (found : after.consumers.get? key = some number)
      (notAsked : after.crew.isAsked number = false) :
      ∃ leaseKey shard, worker.HoldsShard leaseKey shard ∧ shard.key = key := by
    refine Classical.byContradiction fun lost => ?_
    have asked := attended.unassigned found fun leaseKey shard holds same => lost ⟨leaseKey, shard, holds, same⟩
    rw [notAsked] at asked
    cases asked
  classical
  let leaseOf (key : ShardKey) : String :=
    if held : ∃ leaseKey shard, worker.HoldsShard leaseKey shard ∧ shard.key = key then held.choose else ""
  have chosen {key : ShardKey} {number : Nat} (found : after.consumers.get? key = some number)
      (notAsked : after.crew.isAsked number = false) :
      ∃ shard, worker.HoldsShard (leaseOf key) shard ∧ shard.key = key := by
    have held := belongs found notAsked
    simpa only [leaseOf, dif_pos held] using held.choose_spec
  refine ⟨leaseOf, chosen, fun {key other number second} found notAsked there alsoNot same => ?_⟩
  obtain ⟨shard, ⟨held, heldHere, rfl⟩, rfl⟩ := chosen found notAsked
  obtain ⟨shard, ⟨others, heldThere, rfl⟩, rfl⟩ := chosen there alsoNot
  rw [same] at heldHere
  obtain rfl := Option.some.inj (heldHere.symm.trans heldThere)
  rfl

/-! ## Refusals -/

/-- The worker with other pending rejections. -/
def withRejections (worker : Worker) (rejections : RejectionQueue) : Worker := { worker with rejections }

/-- What was rejected before makes no difference to what is done with a shard. -/
theorem serveShard_withRejections (table : LeaseTable) (worker : Worker) (rejections : RejectionQueue)
    (shard : AssignedShard) : ∃ others, serveShard table (worker.withRejections rejections) shard =
      (serveShard table worker shard).withRejections others := by
  unfold serveShard
  split
  · refine ⟨rejections, ?_⟩
    unfold finishShard withRejections
    dsimp only
    split <;> rfl
  · split
    · exact ⟨rejections, rfl⟩
    · unfold engage withRejections
      dsimp only
      cases worker.consumers.get? shard.key with
      | some number => exact ⟨rejections, rfl⟩
      | none =>
        cases worker.crew.start shard with
        | ok started => exact ⟨rejections, rfl⟩
        | error reason => exact ⟨_, rfl⟩

theorem foldl_serveShard_withRejections (table : LeaseTable) (shards : List AssignedShard) (worker : Worker)
    (rejections : RejectionQueue) :
    ∃ others, shards.foldl (serveShard table) (worker.withRejections rejections) =
      (shards.foldl (serveShard table) worker).withRejections others := by
  induction shards generalizing worker rejections with
  | nil => exact ⟨rejections, rfl⟩
  | cons shard rest ih =>
    obtain ⟨others, same⟩ := serveShard_withRejections table worker rejections shard
    obtain ⟨final, last⟩ := ih (serveShard table worker shard) others
    exact ⟨final, by rw [List.foldl_cons, List.foldl_cons, same, last]⟩

/-- A refusal is noted, and nothing else happens. -/
theorem serveShard_of_refused {worker : Worker} {shard : AssignedShard} {error : WorkerError}
    (refused : worker.engage shard = .error error) (table : LeaseTable) :
    ∃ rejections, serveShard table worker shard = worker.withRejections rejections := by
  unfold serveShard
  split
  · have absent : worker.consumers.get? shard.key = none := by
      rcases worker.engage_cases shard with ⟨_, _, same⟩ | ⟨_, _, _, same⟩ | ⟨_, absent, _⟩
      · cases same.symm.trans refused
      · cases same.symm.trans refused
      · exact absent
    exact ⟨worker.rejections, by rw [finishShard, absent]; rfl⟩
  · split
    · exact ⟨worker.rejections, rfl⟩
    · rw [refused]
      exact ⟨_, rfl⟩

/-- The pass over the other shards is the same when the crew refuses one of them, but for the
rejection. -/
theorem serve_without_refused {worker : Worker} {before after : List AssignedShard} {shard : AssignedShard}
    {error : WorkerError} (shards : worker.assignedShards = before ++ shard :: after)
    (refused : (before.foldl (serveShard (.ofLeases worker.coordinator.allLeases)) worker).engage shard =
      .error error) :
    ∃ rejections, worker.serve =
      (((before ++ after).foldl (serveShard (.ofLeases worker.coordinator.allLeases)) worker).dismiss
        (worker.assignedShards.map AssignedShard.key)).withRejections rejections := by
  obtain ⟨noted, same⟩ := serveShard_of_refused refused (.ofLeases worker.coordinator.allLeases)
  obtain ⟨others, rest⟩ := foldl_serveShard_withRejections (.ofLeases worker.coordinator.allLeases) after
    (before.foldl (serveShard (.ofLeases worker.coordinator.allLeases)) worker) noted
  refine ⟨others, ?_⟩
  unfold serve
  dsimp only
  rw [shards, List.foldl_append, List.foldl_cons, same, rest, List.foldl_append]
  rfl

end Worker

end LeaseFleet
