import LeaseFleet.Proofs.Fleet.Fencing

/-!
# How leases are rewritten

What a step of a fleet may do to the table: an applied update rewrites the version that was stored
right before it, by a deed that is part of the duty of the thread (`Event.Effect`), and other steps
that neither create nor delete leases change nothing. So no update is ever lost
(`updates_rewrite_the_stored_version`), and a lease stays the lease of its shard.
-/

namespace LeaseFleet

/-- Two versions of one lease, which differ in owner, counter, checkpoint and switches at most. -/
structure Lease.SameShard (left right : Lease) : Prop where
  leaseKey : left.leaseKey = right.leaseKey
  stream : left.stream = right.stream
  shardId : left.shardId = right.shardId
  parents : left.parents = right.parents
  throughputKbps : left.throughputKbps = right.throughputKbps

namespace Lease.SameShard

theorem refl (lease : Lease) : lease.SameShard lease := ⟨rfl, rfl, rfl, rfl, rfl⟩

theorem trans {first second third : Lease} (left : first.SameShard second)
    (right : second.SameShard third) : first.SameShard third :=
  ⟨left.leaseKey.trans right.leaseKey, left.stream.trans right.stream,
    left.shardId.trans right.shardId, left.parents.trans right.parents,
    left.throughputKbps.trans right.throughputKbps⟩

end Lease.SameShard

namespace Deed

/-- How often the owner of a version has changed since the last checkpoint, after a deed on it. -/
def switches (base : Lease) : Deed → Nat
  | checkpoint _ => 0
  | acquire owner | move owner =>
    if base.owner = some owner then base.ownerSwitches else base.ownerSwitches + 1
  | renew | release => base.ownerSwitches

theorem written_sameShard (deed : Deed) (base : Lease) : (deed.written base).SameShard base := by
  cases deed <;> exact ⟨rfl, rfl, rfl, rfl, rfl⟩

theorem written_ownerSwitches (deed : Deed) (base : Lease) :
    (deed.written base).ownerSwitches = deed.switches base := by
  cases deed <;> rfl

/-- Only a checkpoint changes the checkpoint. -/
theorem eq_checkpoint_of_changed {deed : Deed} {base : Lease}
    (changed : (deed.written base).checkpoint ≠ base.checkpoint) :
    deed = .checkpoint (deed.written base).checkpoint := by
  cases deed with
  | checkpoint => rfl
  | _ => exact absurd rfl changed

end Deed

namespace Event

/-- Whether a deed, done to a version, is part of what a step shows: others only move leases. -/
def Permits (deed : Deed) (base : Lease) : Event Duty Outcome → Prop
  | called place duty _ _ => deed.IsPartOf duty place base
  | outside _ _ => ∃ target, deed = .move target
  | _ => False

/-- What a step that deletes nothing does to the table. -/
structure Effect (event : Event Duty Outcome) (before after : LeaseTable) : Prop where
  applied : ∀ {applied}, event.applied? = some applied → ∃ deed base, event.Permits deed base ∧
    before.get? base.leaseKey = some base ∧
      applied = ⟨deed.propose base, base.counter, deed.written base⟩ ∧
        after = before.put (deed.written base)
  created : event.Creates → ∃ lease, before.get? lease.leaseKey = none ∧ after = before.put lease
  otherwise : event.applied? = none → ¬event.Creates → after = before

namespace Effect

variable {event : Event Duty Outcome} {before after : LeaseTable}

/-- A step that shows no call changes nothing. -/
theorem of_same (notApplied : event.applied? = none) (notCreated : ¬event.Creates)
    (same : after = before) : event.Effect before after where
  applied isApplied := by simp [notApplied] at isApplied
  created isCreated := absurd isCreated notCreated
  otherwise _ _ := same

/-- A failed call changes nothing. -/
theorem of_failed {call : StoreCall} {error : StoreError}
    (shows : event.applied? = call.applied? (call.failed error))
    (creates : event.Creates ↔ call.Creates (call.failed error)) (same : after = before) :
    event.Effect before after :=
  of_same (shows.trans (call.applied?_failed error)) (mt creates.1 (call.not_creates_failed error)) same

/-- An honest call that deletes nothing has such an effect. -/
theorem of_perform {past : Lease → Prop} {may : Deed → Lease → Prop} {call : StoreCall}
    (versions : Versions before past) (honest : Honest may past (.store call))
    (kept : ¬call.Deletes (before.perform call).1)
    (shows : event.applied? = call.applied? (before.perform call).1)
    (creates : event.Creates ↔ call.Creates (before.perform call).1)
    (permits : ∀ deed base, may deed base → event.Permits deed base) :
    event.Effect before (before.perform call).2 where
  applied {applied} isApplied := by
    obtain ⟨deed, base, allowed, same, found, after⟩ :=
      versions.perform_applied honest (shows ▸ isApplied)
    exact ⟨deed, base, permits deed base allowed, found, same, after⟩
  created isCreated := by
    replace isCreated := creates.1 isCreated
    cases call with
    | create lease =>
      rcases before.create_cases lease with ⟨_, notNew⟩ | ⟨absent, created⟩
      · exact absurd (StoreCall.creates_create.1 isCreated) notNew
      · exact ⟨lease, absent, by simp [LeaseTable.perform, created]⟩
    | _ => exact isCreated.elim
  otherwise notApplied notCreated :=
    LeaseTable.perform_unchanged (shows ▸ notApplied) (mt creates.2 notCreated) kept

/-- Every lease stays in the table, as the lease of its shard. -/
theorem keeps (effect : event.Effect before after) {leaseKey : String} {lease : Lease}
    (found : before.get? leaseKey = some lease) :
    ∃ now, after.get? leaseKey = some now ∧ now.SameShard lease := by
  cases shown : event.applied? with
  | some applied =>
    obtain ⟨deed, base, _, stored, _, rfl⟩ := effect.applied shown
    by_cases same : leaseKey = base.leaseKey
    · subst same
      refine ⟨deed.written base, ?_, Option.some.inj (stored.symm.trans found) ▸ deed.written_sameShard base⟩
      rw [← deed.written_leaseKey base]
      exact SortedMap.get?_insert_self ..
    · refine ⟨lease, SortedMap.get?_insert_eq_some_iff.2 (.inr ⟨?_, found⟩), .refl lease⟩
      rwa [deed.written_leaseKey]
  | none =>
    by_cases creates : event.Creates
    · obtain ⟨new, absent, rfl⟩ := effect.created creates
      have differs : leaseKey ≠ new.leaseKey := by
        rintro rfl
        simp [found] at absent
      exact ⟨lease, SortedMap.get?_insert_eq_some_iff.2 (.inr ⟨differs, found⟩), .refl lease⟩
    · exact ⟨lease, effect.otherwise shown creates ▸ found, .refl lease⟩

/-- Without creations, there are no other leases afterwards. -/
theorem found_before (effect : event.Effect before after) (notCreated : ¬event.Creates)
    {leaseKey : String} {lease : Lease} (found : after.get? leaseKey = some lease) :
    ∃ earlier, before.get? leaseKey = some earlier := by
  cases shown : event.applied? with
  | some applied =>
    obtain ⟨deed, base, _, stored, _, rfl⟩ := effect.applied shown
    rcases SortedMap.get?_insert_eq_some_iff.1 found with ⟨rfl, _⟩ | ⟨_, found⟩
    · exact ⟨base, by rwa [deed.written_leaseKey]⟩
    · exact ⟨lease, found⟩
  | none => exact ⟨lease, effect.otherwise shown notCreated ▸ found⟩

end Effect

end Event

/-! ## Steps and runs of a fleet -/

section

variable {past : Lease → Prop} {s after : FleetState} {marks remarked : Nat → Knowledge}
  {event : Event Duty Outcome}

theorem Fenced.effect {asked : Duty → Prop} (fenced : Fenced past s marks)
    (move : fleetDiscipline.Move Duty.behaviour asked s marks event after remarked)
    (kept : ¬event.Deletes) : event.Effect s.table after.table := by
  cases move with
  | ask script found answers isOpen =>
    have honest := isOpen.1.imp fun _ => fenced.known found
    cases answers with
    | stored call =>
      exact .of_perform fenced.versions honest kept rfl Iff.rfl fun _ _ => id
    | failed call error => exact .of_failed rfl Iff.rfl rfl
    | token => exact .of_same rfl id rfl
    | other notCall =>
      rename_i query _ _ _
      cases query with
      | store call => exact absurd rfl (notCall call)
      | _ => exact .of_same rfl id rfl
  | outside may answers =>
    rw [Interleaving.keepCopies_table]
    cases answers with
    | stored call =>
      have honest := honest_of_mayCall fenced.copies may
      exact .of_perform fenced.versions honest kept rfl Iff.rfl fun _ _ => id
    | failed call error => exact .of_failed rfl Iff.rfl rfl
    | other notCall => exact absurd rfl (notCall _)
  | _ => exact .of_same rfl id rfl

/-- What the moves of a step do together. -/
theorem Fenced.effect_of_moves {asked : Duty → Prop} (fenced : Fenced past s marks)
    (moves : fleetDiscipline.Moves Duty.behaviour asked s marks event after remarked)
    (kept : ¬event.Deletes) : event.Effect s.table after.table := by
  induction moves with
  | one move => exact fenced.effect move kept
  | more earlier move ih =>
    have same := (ih kept).otherwise rfl id
    exact .of_same rfl id ((move.table_of_inner rfl).trans same)

variable {leases : List Lease} {setups : List WorkerSetup} {trace : List (Event Duty Outcome)}

/-- What a step after a run does to the table. -/
theorem effect_of_step (run : FleetRun (fleetStart leases setups) trace s)
    (step : FleetStep s event after) (kept : ∀ event' ∈ trace ++ [event], ¬event'.Deletes) :
    event.Effect s.table after.table := by
  obtain ⟨marks, marked, past, fenced⟩ := fenced_of_run run fun event mem => kept event (by simp [mem])
  obtain ⟨remarked, _, moves⟩ := Discipline.Step.moves fleet_obeys marked
    (fun _ found => fenced.holds found) (fun _ answers => faithful_of_answers answers) step
  exact fenced.effect_of_moves moves (kept event (by simp))

/-- Over a run without deletions every lease stays the lease of its shard, and only creations add
to them. -/
theorem same_shards_of_run (run : FleetRun (fleetStart leases setups) trace s)
    (kept : ∀ event ∈ trace, ¬event.Deletes) :
    (∀ {leaseKey lease}, (LeaseTable.ofLeases leases).get? leaseKey = some lease →
      ∃ now, s.table.get? leaseKey = some now ∧ now.SameShard lease) ∧
    ((∀ event ∈ trace, ¬event.Creates) → ∀ {leaseKey lease}, s.table.get? leaseKey = some lease →
      ∃ earlier, (LeaseTable.ofLeases leases).get? leaseKey = some earlier) := by
  induction run with
  | refl => exact ⟨fun found => ⟨_, found, .refl _⟩, fun _ _ _ found => ⟨_, found⟩⟩
  | snoc before step ih =>
    have effect := effect_of_step before step kept
    obtain ⟨stay, noOthers⟩ := ih fun event mem => kept event (by simp [mem])
    refine ⟨fun found => ?_, fun notCreated _ _ found => ?_⟩
    · obtain ⟨now, here, same⟩ := stay found
      obtain ⟨later, there, still⟩ := effect.keeps here
      exact ⟨later, there, still.trans same⟩
    · obtain ⟨earlier, here⟩ := effect.found_before (notCreated _ (by simp)) found
      exact noOthers (fun event mem => notCreated event (by simp [mem])) here

/-- No update is lost. Over a run without deletions every lease stays the lease of its shard, and
without creations there are no others. An update that is applied was made by a deed from exactly the
version that was stored right before it; steps that neither update nor create a lease change
nothing. Only a checkpoint that was asked of the stored owner changes the stored checkpoint, and it
starts the count of owner switches again, which grows by one with every change of owner. -/
theorem updates_rewrite_the_stored_version (run : FleetRun (fleetStart leases setups) trace s)
    (step : FleetStep s event after) (kept : ∀ event' ∈ trace ++ [event], ¬event'.Deletes) :
    (∀ {leaseKey lease}, (LeaseTable.ofLeases leases).get? leaseKey = some lease →
      ∃ now, after.table.get? leaseKey = some now ∧ now.SameShard lease) ∧
    ((∀ event' ∈ trace ++ [event], ¬event'.Creates) →
      ∀ {leaseKey lease}, after.table.get? leaseKey = some lease →
        ∃ earlier, (LeaseTable.ofLeases leases).get? leaseKey = some earlier) ∧
    (event.applied? = none → ¬event.Creates → after.table = s.table) ∧
    ∀ {applied}, event.applied? = some applied → ∃ deed base, event.Permits deed base ∧
      s.table.get? base.leaseKey = some base ∧
      applied = ⟨deed.propose base, base.counter, deed.written base⟩ ∧
      after.table = s.table.put (deed.written base) ∧ (deed.written base).SameShard base ∧
      ((deed.written base).checkpoint ≠ base.checkpoint →
        ∃ place token call reply, base.owner = some place ∧ event = .called place
          (.request (.checkpoint base.leaseKey token (deed.written base).checkpoint)) call reply) ∧
      (deed.written base).ownerSwitches = deed.switches base := by
  have effect := effect_of_step run step kept
  have shards := same_shards_of_run (run.snoc step) kept
  refine ⟨shards.1, shards.2, effect.otherwise, fun isApplied => ?_⟩
  obtain ⟨deed, base, permits, found, same, result⟩ := effect.applied isApplied
  refine ⟨deed, base, permits, found, same, result, deed.written_sameShard base, fun changed => ?_,
    deed.written_ownerSwitches base⟩
  have isCheckpoint := Deed.eq_checkpoint_of_changed changed
  rw [isCheckpoint] at permits
  cases event with
  | called place duty call reply =>
    obtain ⟨owner, token, rfl⟩ := permits
    exact ⟨place, token, call, reply, owner, rfl⟩
  | outside call reply =>
    obtain ⟨target, other⟩ := permits
    cases other
  | _ => exact permits.elim

end

/-- The first worker adopts the lease and is about to store a checkpoint. -/
def checkpointing : List (Event Duty Outcome) × FleetState :=
  pairPlays (List.flatten [
    [.begin "w1" (.request .adopt)], Interleaving.acts 0 40,
    [.begin "w1" (.request (.checkpoint "a" ⟨0⟩ (.sequence "7")))], Interleaving.acts 1 2])

/-- The checkpoint is stored in place of the version that is in the table then, which the worker
owns. -/
theorem checkpointing_rewrites_the_stored_version : ∃ event after deed base,
    FleetStep checkpointing.2 event after ∧ event.Permits deed base ∧
      checkpointing.2.table.get? "a" = some base ∧ base.owner = some "w1" ∧
      after.table = checkpointing.2.table.put (deed.written base) ∧
      (deed.written base).checkpoint = .sequence "7" ∧ (deed.written base).SameShard base := by
  have run : FleetRun pairStart checkpointing.1 checkpointing.2 := pairPlays_run _
  have acts : ((checkpointing.2.choose? Duty.behaviour (fun duty => duty.background? = none)
      (.act 1)).bind (·.1.applied?)).map (·.stored) = some
        { leaseKey := "a", shardId := "a", owner := some "w1", counter := 2
          checkpoint := .sequence "7" } := by decide +kernel
  obtain ⟨applied, acts, stored⟩ := Option.map_eq_some_iff.1 acts
  obtain ⟨⟨event, after⟩, chosen, isApplied⟩ := Option.bind_eq_some_iff.1 acts
  have step : FleetStep checkpointing.2 event after := Interleaving.step_of_choose? chosen
  have kept : ∀ event' ∈ checkpointing.1 ++ [event], ¬event'.Deletes := by
    intro event' mem
    rcases List.mem_append.1 mem with earlier | last
    · exact (by decide +kernel : ∀ event ∈ checkpointing.1, ¬event.Deletes) event' earlier
    · exact List.mem_singleton.1 last ▸ Event.not_deletes_of_applied isApplied
  obtain ⟨_, _, _, rewrites⟩ := updates_rewrite_the_stored_version run step kept
  obtain ⟨deed, base, permits, found, rfl, result, shard, _, _⟩ := rewrites isApplied
  have written : deed.written base = _ := stored
  have key : base.leaseKey = "a" := by rw [← deed.written_leaseKey, written]
  have owner : (checkpointing.2.table.get? "a").bind Lease.owner = some "w1" := by decide +kernel
  rw [key] at found
  refine ⟨event, after, deed, base, step, permits, found, ?_, result, by rw [written], shard⟩
  simpa [found] using owner

end LeaseFleet
