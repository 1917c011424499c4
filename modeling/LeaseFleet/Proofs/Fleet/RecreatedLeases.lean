import LeaseFleet.Proofs.Fleet.Fencing
import LeaseFleet.Proofs.Interleaving.StepEffects

/-!
# The lives of a lease

A lease that is deleted and created again begins a new life, and its counter begins at zero again
(`counter_newLease`). The counter of a life says how often the lease was written in it (`Run.counter_eq`),
and nothing else tells the lives apart. So a conditional write is applied to the new life exactly when the
counter of its copy is the number of writes in the new life, from whichever life the copy is
(`recreated_fenced_by_count_only`).
-/

namespace LeaseFleet

/-! ## What a call does to one lease -/

namespace LeaseTable

/-- A call that does not delete a lease leaves it, or writes it and counts that. -/
theorem perform_counts {table : LeaseTable} {call : StoreCall} {leaseKey : String} {stored : Lease}
    (found : table.get? leaseKey = some stored) (kept : call ≠ .delete leaseKey) :
    ∃ now, (table.perform call).2.get? leaseKey = some now ∧
      now.counter = stored.counter + if (call.applied? (table.perform call).1).any
        (·.proposal.leaseKey = leaseKey) then 1 else 0 := by
  cases call with
  | list | isEmpty => exact ⟨stored, found, rfl⟩
  | delete deleted =>
    have differs : leaseKey ≠ deleted := fun same => kept (by rw [same])
    exact ⟨stored, SortedMap.get?_erase_eq_some_iff.2 ⟨differs, found⟩, rfl⟩
  | create lease =>
    refine ⟨stored, ?_, rfl⟩
    rcases table.create_cases lease with ⟨same, _⟩ | ⟨absent, created⟩
    · exact same.symm ▸ found
    · have differs : leaseKey ≠ lease.leaseKey := by
        rintro rfl
        simp [found] at absent
      simp only [perform, created]
      exact SortedMap.get?_insert_eq_some_iff.2 (.inr ⟨differs, found⟩)
  | update proposal expected =>
    have reply : (table.perform (.update proposal expected)).1 = .ok (table.update proposal expected).1 := rfl
    rw [reply]
    cases outcome : (table.update proposal expected).1 with
    | versionConflict | notFound =>
      have same : (table.update proposal expected).2 = table := update_refused (by simp [outcome])
      exact ⟨stored, same.symm ▸ found, rfl⟩
    | updated written =>
      obtain ⟨⟨before, here, current⟩, rfl⟩ := update_updated.1 outcome
      simp only [perform, update_table outcome, StoreCall.applied?, Option.any_some]
      by_cases same : proposal.leaseKey = leaseKey
      · subst same
        obtain rfl := Option.some.inj (found.symm.trans here)
        exact ⟨_, SortedMap.get?_insert_self .., by simp [current]⟩
      · exact ⟨stored, SortedMap.get?_insert_eq_some_iff.2 (.inr ⟨Ne.symm same, found⟩), by simp [same]⟩

end LeaseTable

/-! ## What an event shows of one lease -/

namespace Event

variable {Job Result : Type}

/-- Whether the lease of the key was deleted. -/
def DeletesLease (leaseKey : String) (event : Event Job Result) : Prop := event.Shows (.delete leaseKey) (.ok ())

/-- Whether the lease of the key was written by a conditional write. -/
def rewrites (leaseKey : String) (event : Event Job Result) : Bool :=
  event.applied?.any fun applied => applied.proposal.leaseKey = leaseKey

/-- A sync of a worker has created the lease of the key. -/
def CreatedBySync (leaseKey : String) (event : Event Job Result) : Prop :=
  ∃ (place : String) (job : Job) (fresh : Lease), event = .called place job (.create fresh) (.ok true) ∧
    fresh.leaseKey = leaseKey ∧
    ∃ (sync : ShardSync) (config : StreamConfig) (listed : List ShardDescription) (existing : List Lease),
      fresh ∈ sync.missingLeases config listed existing

end Event

/-! ## Counting along a run -/

namespace Interleaving

variable {σ Job Result : Type} {behaviour : Machine.Behaviour σ Job Result} {asked : Job → Prop}
  {s first last after : Interleaving σ Job Result} {event : Event Job Result} {trace : List (Event Job Result)}

theorem Step.counts (step : Step behaviour asked s event after) {leaseKey : String} {stored : Lease}
    (found : s.table.get? leaseKey = some stored) (kept : ¬event.DeletesLease leaseKey) :
    ∃ now, after.table.get? leaseKey = some now ∧
      now.counter = stored.counter + if event.rewrites leaseKey then 1 else 0 := by
  rcases step.performed with ⟨same, fruitless⟩ | ⟨call, performed, shown⟩
  · exact ⟨stored, same ▸ found, by simp [Event.rewrites, fruitless.applied?]⟩
  · have notDeleted : call ≠ .delete leaseKey := by
      rintro rfl
      exact kept shown
    rw [performed, Event.rewrites, shown.applied?]
    exact LeaseTable.perform_counts found notDeleted

/-- As long as a lease is not deleted, its counter grows by one with each write of it, and by nothing
else. -/
theorem Run.counter_eq (run : Run behaviour asked first trace last) {leaseKey : String} {stored : Lease}
    (found : first.table.get? leaseKey = some stored) (kept : ∀ event ∈ trace, ¬event.DeletesLease leaseKey) :
    ∃ now, last.table.get? leaseKey = some now ∧
      now.counter = stored.counter + trace.countP (·.rewrites leaseKey) := by
  induction run with
  | refl => exact ⟨stored, found, by simp⟩
  | snoc before step ih =>
    obtain ⟨between, here, counter⟩ := ih fun event mem => kept event (List.mem_append_left _ mem)
    obtain ⟨now, there, counterNow⟩ :=
      step.counts here (kept _ (List.mem_append_right _ List.mem_cons_self))
    refine ⟨now, there, ?_⟩
    rw [counterNow, counter, List.countP_append, List.countP_singleton, Nat.add_assoc]

end Interleaving

/-! ## The second life -/

/-- The lease of a new shard has not been written yet. -/
theorem ShardSync.counter_newLease {sync : ShardSync} {config : StreamConfig} {listed : List ShardDescription}
    {existing : List Lease} {fresh : Lease} (mem : fresh ∈ sync.missingLeases config listed existing) :
    fresh.counter = 0 := by
  obtain ⟨shard, _, rfl⟩ := List.mem_map.1 mem
  rfl

/-- Right after a sync has created a lease, its counter is zero. -/
theorem counter_of_created {s after : FleetState} {event : Event Duty Outcome} {leaseKey : String}
    (step : FleetStep s event after) (created : event.CreatedBySync leaseKey) :
    ∃ fresh, after.table.get? leaseKey = some fresh ∧ fresh.counter = 0 := by
  obtain ⟨place, duty, fresh, rfl, rfl, sync, config, listed, existing, mem⟩ := created
  have carriedOut : s.table.create fresh = (.ok true, after.table) := step.answered (.inr ⟨place, duty, rfl⟩)
  rcases s.table.create_cases fresh with ⟨_, refused⟩ | ⟨_, stored⟩
  · exact absurd (by rw [carriedOut]) refused
  · rw [carriedOut] at stored
    rw [(Prod.mk.inj stored).2]
    exact ⟨fresh, SortedMap.get?_insert_self .., ShardSync.counter_newLease mem⟩

section

variable {leases : List Lease} {setups : List WorkerSetup} {s after : FleetState}
  {trace early late : List (Event Duty Outcome)} {creation event : Event Duty Outcome} {leaseKey : String}
  {deed : Deed} {copy : Lease} {outcome : UpdateOutcome}

/-- Since a sync has created a lease that was deleted before, a conditional write of it has been applied
exactly when the counter of its copy was the number of writes since then, no matter how long before the
deletion the copy was read; the lease then goes on as the copy says. Otherwise the write is refused and
changes nothing. -/
theorem recreated_fenced_by_count_only (run : FleetRun (fleetStart leases setups) trace s)
    (split : trace = early ++ creation :: late) (created : creation.CreatedBySync leaseKey)
    (kept : ∀ event ∈ late, ¬event.DeletesLease leaseKey) (isCopy : copy.leaseKey = leaseKey)
    (step : FleetStep s event after)
    (write : event.Shows (.update (deed.propose copy) copy.counter) (.ok outcome)) :
    (outcome.isUpdated = true ↔ copy.counter = late.countP (·.rewrites leaseKey)) ∧
      (outcome.isUpdated = true → after.table.get? leaseKey = some (deed.written copy)) ∧
      (outcome.isUpdated = false → outcome = .versionConflict ∧ after.table = s.table) := by
  obtain ⟨before, made, upTo, creates, since⟩ := run.at_event split
  obtain ⟨fresh, there, zero⟩ := counter_of_created creates created
  obtain ⟨stored, found, counter⟩ := since.counter_eq there kept
  rw [zero, Nat.zero_add] at counter
  have carriedOut := step.answered write
  have sameKey : (deed.propose copy).leaseKey = leaseKey := (deed.propose_leaseKey copy).trans isCopy
  rw [← sameKey] at found
  by_cases current : stored.counter = copy.counter
  · have applied := LeaseTable.update_of_current found current
    simp only [LeaseTable.perform, applied, Prod.mk.injEq, Except.ok.injEq] at carriedOut
    obtain ⟨rfl, table⟩ := carriedOut
    refine ⟨?_, fun _ => ?_, fun refused => by simp [UpdateOutcome.isUpdated] at refused⟩
    · simp [UpdateOutcome.isUpdated, ← current, counter]
    · rw [← table, ← sameKey]
      exact SortedMap.get?_insert_self ..
  · have refused := LeaseTable.update_of_stale found current
    simp only [LeaseTable.perform, refused, Prod.mk.injEq, Except.ok.injEq] at carriedOut
    obtain ⟨rfl, table⟩ := carriedOut
    refine ⟨?_, fun isApplied => by simp [UpdateOutcome.isUpdated] at isApplied, fun _ => ⟨rfl, table.symm⟩⟩
    simp only [UpdateOutcome.isUpdated, Bool.false_eq_true, false_iff]
    rw [← counter]
    exact fun same => current same.symm

end

/-! ### A shard that is listed again -/

/-- What a worker has done to the table by one call. -/
inductive Dealing where
  | deletion (leaseKey : String)
  | creation (fresh : Lease)
  | write (proposal : Lease) (expected : Nat) (outcome : UpdateOutcome)
  deriving DecidableEq

def Event.dealing? : Event Duty Outcome → Option Dealing
  | called _ _ (.delete leaseKey) (.ok _) => some (.deletion leaseKey)
  | called _ _ (.create fresh) (.ok true) => some (.creation fresh)
  | called _ _ (.update proposal expected) (.ok outcome) => some (.write proposal expected outcome)
  | _ => none

theorem Event.deletesLease_of_dealing? {event : Event Duty Outcome} {leaseKey : String}
    (shown : event.dealing? = some (.deletion leaseKey)) : event.DeletesLease leaseKey := by
  unfold dealing? at shown
  split at shown <;> cases shown
  exact .inr ⟨_, _, rfl⟩

theorem Event.created_of_dealing? {event : Event Duty Outcome} {fresh : Lease}
    (shown : event.dealing? = some (.creation fresh)) :
    ∃ place duty, event = .called place duty (.create fresh) (.ok true) := by
  unfold dealing? at shown
  split at shown <;> cases shown
  exact ⟨_, _, rfl⟩

theorem Event.shows_of_dealing? {event : Event Duty Outcome} {proposal : Lease} {expected : Nat}
    {outcome : UpdateOutcome} (shown : event.dealing? = some (.write proposal expected outcome)) :
    event.Shows (.update proposal expected) (.ok outcome) := by
  unfold dealing? at shown
  split at shown <;> cases shown
  exact .inr ⟨_, _, rfl⟩

/-- The stream of the fleet. -/
def plainStream : StreamConfig :=
  .ofStream { accountId := none, streamName := "n", creationEpoch := none, region := none } .trimHorizon

/-- The stream is to be consumed; it lists the given shards. -/
def listing (now : Nat) (shards : List ShardDescription) : (query : Query) → query.Reply
  | .shards _ => .ok shards
  | .trackedStreams => [plainStream]
  | .clock => now
  | query => Interleaving.plainReply query

/-- A fleet of two workers, and a lease of the first one that is consumed to its end. -/
def finishedStart : FleetState :=
  fleetStart [{ leaseKey := "a", shardId := "a", owner := some "w1", checkpoint := .shardEnd }]
    [{ workerId := "w1", multi := false, region := "r", account := "c" },
      { workerId := "w2", multi := false, region := "r", account := "c" }]

/-- The first worker has listed the lease and is about to acquire it. The second one finds that the shard
is not listed any more, and deletes the lease. -/
def delisting : List (Event Duty Outcome) × FleetState :=
  Interleaving.playTold Duty.behaviour (fun duty => duty.background? = none) (listing 0 [])
    (List.flatten [
      [.begin "w1" (.request .adopt)], Interleaving.acts 0 6,
      [.begin "w2" (.request .processOnce)], Interleaving.acts 1 60])
    ([], finishedStart)

/-- Much later the shard is listed again, and the second worker creates the lease again. Then the given
choices follow. -/
def relisting (choices : List (Interleaving.Choice Duty)) : List (Event Duty Outcome) × FleetState :=
  Interleaving.playTold Duty.behaviour (fun duty => duty.background? = none)
    (listing 1000000000 [{ shardId := "a" }])
    (List.flatten [[.begin "w2" (.request .processOnce)], Interleaving.acts 2 60, choices])
    (delisting.1, delisting.2)

theorem relisting_run (choices : List (Interleaving.Choice Duty)) :
    FleetRun finishedStart (relisting choices).1 (relisting choices).2 := by
  have deleted : FleetRun finishedStart delisting.1 delisting.2 := Interleaving.run_playTold _ _ (.refl _)
  exact Interleaving.run_playTold _ _ deleted

/-- A dealing that is found in a trace comes between what was shown before and after it. -/
theorem split_of_dealing {events : List (Event Duty Outcome)} {position : Nat} {dealing : Dealing}
    (shown : events[position]?.bind Event.dealing? = some dealing) :
    ∃ event, event.dealing? = some dealing ∧
      events = events.take position ++ event :: events.drop (position + 1) := by
  obtain ⟨event, found, isDealing⟩ := Option.bind_eq_some_iff.1 shown
  obtain ⟨inside, rfl⟩ := List.getElem?_eq_some_iff.1 found
  exact ⟨_, isDealing, by rw [← List.drop_eq_getElem_cons inside, List.take_append_drop]⟩

/-- The first worker's copy, which is older than the deletion, is applied to the lease that was created
again, and with it the end of the shard. If the second worker takes the lease before that, the copy is
refused. -/
theorem recreated_fenced_by_count_only_when_relisted :
    ∃ copy, finishedStart.table.get? "a" = some copy ∧ copy.isShardEnd = true ∧
      ∀ choices outcome, (choices, outcome) ∈
          [([], UpdateOutcome.updated ((Deed.acquire "w1").written copy)),
            ([.begin "w2" (.request .take)] ++ Interleaving.acts 3 40, .versionConflict)] →
        ∃ early deletion between creation late event after,
          (relisting choices).1 = early ++ deletion :: between ++ creation :: late ∧
          deletion.DeletesLease "a" ∧ creation.CreatedBySync "a" ∧
          FleetStep (relisting choices).2 event after ∧
          event.Shows (.update ((Deed.acquire "w1").propose copy) copy.counter) (.ok outcome) ∧
          (outcome.isUpdated = true ↔ copy.counter = late.countP (·.rewrites "a")) ∧
          (outcome.isUpdated = true → after.table.get? "a" = some ((Deed.acquire "w1").written copy)) ∧
          (outcome.isUpdated = false → outcome = .versionConflict ∧ after.table = (relisting choices).2.table) := by
  let copy : Lease := { leaseKey := "a", shardId := "a", owner := some "w1", checkpoint := .shardEnd }
  refine ⟨copy, by decide +kernel, rfl, fun choices outcome mem => ?_⟩
  have run := relisting_run choices
  have played : (relisting choices).1[47]?.bind Event.dealing? = some (.creation (.ofShard none "a" .trimHorizon)) ∧
      ((relisting choices).1.take 47)[27]?.bind Event.dealing? = some (.deletion "a") ∧
      (∀ event ∈ (relisting choices).1.drop 48, ¬event.Deletes) ∧
      ((relisting choices).2.choose? Duty.behaviour (fun duty => duty.background? = none) (.act 0)).bind
        (·.1.dealing?) = some (.write ((Deed.acquire "w1").propose copy) copy.counter outcome) := by
    simp only [List.mem_cons, Prod.mk.injEq, List.not_mem_nil, or_false] at mem
    rcases mem with ⟨rfl, rfl⟩ | ⟨rfl, rfl⟩ <;> decide +kernel
  obtain ⟨isCreation, isDeletion, kept, writes⟩ := played
  obtain ⟨creation, createdIt, split⟩ := split_of_dealing isCreation
  obtain ⟨deletion, deletedIt, splitBefore⟩ := split_of_dealing isDeletion
  obtain ⟨⟨event, after⟩, chosen, shown⟩ := Option.bind_eq_some_iff.1 writes
  have step := Interleaving.step_of_choose? chosen
  have created : creation.CreatedBySync "a" := by
    obtain ⟨place, duty, rfl⟩ := Event.created_of_dealing? createdIt
    exact ⟨place, duty, _, rfl, rfl, ⟨false, .ofLimits 1 1 1⟩, plainStream, [{ shardId := "a" }], [], by decide +kernel⟩
  have keptIt (event : Event Duty Outcome) (mem : event ∈ (relisting choices).1.drop 48) :
      ¬event.DeletesLease "a" := by
    intro deletes
    refine kept event mem ?_
    rcases deletes with rfl | ⟨place, duty, rfl⟩ <;> trivial
  have fenced := recreated_fenced_by_count_only run split created keptIt rfl step (Event.shows_of_dealing? shown)
  rw [splitBefore] at split
  exact ⟨_, deletion, _, creation, _, event, after, split, Event.deletesLease_of_dealing? deletedIt, created, step,
    Event.shows_of_dealing? shown, fenced⟩

end LeaseFleet
