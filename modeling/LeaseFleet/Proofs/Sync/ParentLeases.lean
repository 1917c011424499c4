import LeaseFleet.Proofs.Sync.ShardSyncRuns

/-!
# Parents and children in a sync

The process loop consumes a shard as soon as the table has no unfinished lease of a parent, so a child
should never be leased before its listed parents are. A sync creates leases in the order of the
listing, and another worker may look at the table after each of them: the law holds at every point
exactly when no shard is created before a parent of it that is listed and still to be created
(`parents_leased_iff`).
-/

namespace LeaseFleet

namespace ShardSync

variable (sync : ShardSync) (config : StreamConfig) (listed : List ShardDescription)

/-- Wherever a lease is new since the first table, the listed parents of its shard are leased. -/
def ParentsLeased (before now : LeaseTable) : Prop :=
  ∀ ⦃leaseKey lease⦄, before.get? leaseKey = none → now.get? leaseKey = some lease →
    ∀ parent ∈ lease.parents.toList, isListed listed parent = true →
      isLeased (sync.leasesOf config now) parent = true

/-- A sync of the table creates the lease, and has dealt with the earlier ones before that. -/
structure CreatesAfter (table : LeaseTable) (earlier : List Lease) (lease : Lease) : Prop where
  inOrder : ∃ later, sync.missing config listed table = earlier ++ lease :: later
  named : Named (earlier ++ [lease])
  isFree : table.get? lease.leaseKey = none
  isFirst : ∀ other ∈ earlier, other.leaseKey ≠ lease.leaseKey

variable {sync config listed} {table before now : LeaseTable} {created rest : List Lease} {parent : String}

theorem of_mem_missing {lease : Lease} (mem : lease ∈ sync.missing config listed table) :
    lease.leaseKey = sync.shardKey config lease.shardId ∧ sync.covers config.stream lease = true := by
  obtain ⟨shard, _, rfl⟩ := List.mem_map.1 mem
  exact ⟨rfl, newLease_covers⟩

section

variable (keyed : before.WellKeyed) (part : sync.missing config listed before = created ++ rest)

include keyed part

/-- Created so far are the shards that were leased at first and those whose free keys were dealt
with. -/
theorem isLeased_created (named : Named created) :
    isLeased (sync.leasesOf config (before.createAll created)) parent = true ↔
      isLeased (sync.leasesOf config before) parent = true ∨
        ∃ other ∈ created, other.shardId = parent ∧ before.get? other.leaseKey = none := by
  have among {lease : Lease} (mem : lease ∈ created) := of_mem_missing (part ▸ List.mem_append_left rest mem)
  rw [isLeased_iff ((partway_of_created part).wellKeyed keyed), isLeased_iff keyed]
  simp only [LeaseTable.get?_createAll]
  constructor
  · rintro ⟨lease, found, covers⟩
    cases here : before.get? (sync.shardKey config parent) with
    | some stored => exact .inl ⟨lease, by simpa [here] using found, covers⟩
    | none =>
      rw [here, Option.none_or] at found
      have mem := List.mem_of_find?_eq_some found
      obtain ⟨sameKey, _⟩ : lease.leaseKey = sync.shardKey config parent ∧ _ := by
        simpa using List.find?_some found
      refine .inr ⟨lease, mem, leaseKeyFor_injective ((among mem).1.symm.trans sameKey), ?_⟩
      rw [sameKey, here]
  · rintro (⟨lease, found, covers⟩ | ⟨other, mem, rfl, absent⟩)
    · exact ⟨lease, by rw [found, Option.some_or], covers⟩
    · obtain ⟨sameKey, _⟩ := among mem
      rw [← sameKey, absent, Option.none_or]
      cases found : created.find? fun lease => lease.leaseKey = other.leaseKey ∧ other.leaseKey ≠ "" with
      | none => exact absurd (List.find?_eq_none.1 found other mem) (by simp [named other mem])
      | some lease => exact ⟨lease, rfl, (among (List.mem_of_find?_eq_some found)).2⟩

omit keyed in
/-- A lease that is new was created at its turn. -/
theorem createsAfter_of_new (named : Named created) {leaseKey : String} {lease : Lease}
    (absent : before.get? leaseKey = none) (found : (before.createAll created).get? leaseKey = some lease) :
    ∃ earlier later, created = earlier ++ lease :: later ∧
      sync.CreatesAfter config listed before earlier lease := by
  rw [LeaseTable.get?_createAll, absent, Option.none_or] at found
  obtain ⟨here, earlier, later, rfl, others⟩ := List.find?_eq_some_iff_append.1 found
  obtain ⟨rfl, isNamed⟩ : lease.leaseKey = leaseKey ∧ leaseKey ≠ "" := by simpa using here
  refine ⟨earlier, later, rfl, ⟨later ++ rest, by simpa using part⟩, ?_, absent, fun other mem same => ?_⟩
  · intro other mem
    rcases List.mem_append.1 mem with mem | mem
    · exact named other (List.mem_append_left _ mem)
    · exact named other (List.mem_append_right _ (List.mem_singleton.1 mem ▸ List.mem_cons_self))
  · have differs := others other mem
    simp [same, isNamed] at differs

end

section

variable {σ Job α : Type} {around : Surroundings} {stopped : σ → Bool}

/-- Leases with keys may be created one after another without a failure. -/
theorem createLeases_comes (named : Named created) (count : Nat)
    (next : Except WorkerError Nat → Script σ Job α) :
    ∃ total, Script.Comes around ((sync.createLeases stopped (created ++ rest) count).bind next, table)
      ((sync.createLeases stopped rest total).bind next, table.createAll created) := by
  induction created generalizing table count with
  | nil => exact ⟨count, .refl⟩
  | cons lease created ih =>
    obtain ⟨isNamed, others⟩ := named_cons.1 named
    have answered : ∃ isNew, (table.perform (.create lease)).1 = .ok isNew := by
      cases outcome : (table.create lease).1 with
      | ok isNew => exact ⟨isNew, outcome⟩
      | error error => exact absurd (table.leaseKey_of_create_error outcome) isNamed
    obtain ⟨isNew, answered⟩ := answered
    obtain ⟨total, comes⟩ := ih others (if isNew then count + 1 else count)
    refine ⟨total, .trans ?_ comes⟩
    rw [List.cons_append, createLeases, Script.bind_eq_bind, Script.bind_assoc]
    exact sync.retry.store_comes stopped answered

/-- The leases that begin the missing ones may be created before the sync is cut off. -/
theorem passes_created (part : sync.missing config listed before = created ++ rest) (named : Named created)
    {mayFail : Prop} : (sync.syncStream stopped config : Script σ Job _).Passes ⟨listed, mayFail⟩ before
      (before.createAll created) := by
  unfold syncStream streamLeases
  simp only [Script.bind_eq_bind, Script.bind_assoc]
  have scanned : (before.perform .list).1 = .ok before.leases := rfl
  refine .after (.single (.ask (.listed config))) (.after (sync.retry.store_comes stopped scanned) ?_)
  show Script.Passes _ ((sync.createLeases stopped (sync.missing config listed before) 0).bind _) before _
  rw [part]
  obtain ⟨total, comes⟩ := createLeases_comes named 0 _
  exact ⟨_, comes⟩

end

/-! ## The law -/

section

variable (keyed : before.WellKeyed)

include keyed

/-- Before anything is deleted the law holds as long as every parent was created in time. -/
theorem parentsLeased_created (part : sync.missing config listed before = created ++ rest)
    (named : Named created)
    (inTime : ∀ {earlier lease}, sync.CreatesAfter config listed before earlier lease →
      ∀ parent ∈ lease.parents.toList, isListed listed parent = true →
        isLeased (sync.leasesOf config before) parent = true ∨
          ∃ other ∈ earlier ++ [lease], other.shardId = parent ∧ before.get? other.leaseKey = none) :
    sync.ParentsLeased config listed before (before.createAll created) := by
  intro leaseKey lease absent found parent isParent isIn
  obtain ⟨earlier, later, rfl, creates⟩ := createsAfter_of_new part named absent found
  refine (isLeased_created keyed part named).2 ((inTime creates parent isParent isIn).imp_right ?_)
  rintro ⟨other, mem, same⟩
  refine ⟨other, ?_, same⟩
  rcases List.mem_append.1 mem with mem | mem
  · exact List.mem_append_left _ mem
  · exact List.mem_append_right _ (List.mem_singleton.1 mem ▸ List.mem_cons_self)

/-- The leases of listed shards are not deleted. -/
theorem parentsLeased_erased {erased others : List Lease}
    (law : sync.ParentsLeased config listed before (before.createAll (sync.missing config listed before)))
    (part : sync.finished config listed before = erased ++ others) :
    sync.ParentsLeased config listed before
      ((before.createAll (sync.missing config listed before)).eraseAll erased) := by
  intro leaseKey lease absent found parent isParent isIn
  rw [LeaseTable.get?_eraseAll] at found
  split at found
  · cases found
  · have created : sync.Partway config listed before
        (before.createAll (sync.missing config listed before)) :=
      partway_of_created (List.append_nil _).symm
    obtain ⟨stored, here, covers⟩ :=
      (isLeased_iff (created.wellKeyed keyed)).1 (law absent found parent isParent isIn)
    refine (isLeased_iff ((partway_of_erased part).wellKeyed keyed)).2 ⟨stored, ?_, covers⟩
    rw [LeaseTable.get?_eraseAll, if_neg, here]
    intro gone
    have isFinished : sync.shardKey config parent ∈ (sync.finished config listed before).map Lease.leaseKey := by
      rw [part, List.map_append]
      exact List.mem_append_left _ gone
    obtain ⟨old, wasHere, covered, _, notListed⟩ := (mem_finished_keys keyed).1 isFinished
    have sameKey := (ownKey_of_covers covered).symm.trans (keyed wasHere).2
    rw [leaseKeyFor_injective sameKey] at notListed
    exact Bool.false_ne_true (notListed.symm.trans isIn)

end

end ShardSync

section

variable {σ Job : Type} {sync : ShardSync} {config : StreamConfig} {listed : List ShardDescription}
  {stopped : σ → Bool} {mayFail : Prop} {before : LeaseTable}

open ShardSync in
/-- At every point of a sync, whenever it has created the lease of a shard, the listed parents of that
shard are leased, if and only if every lease that it creates comes after the leases of its listed
parents, as far as these were not there at first. -/
theorem parents_leased_iff (keyed : before.WellKeyed) :
    (∀ {now}, (sync.syncStream stopped config : Script σ Job _).Passes ⟨listed, mayFail⟩ before now →
      sync.ParentsLeased config listed before now) ↔
    ∀ {earlier lease}, sync.CreatesAfter config listed before earlier lease →
      ∀ parent ∈ lease.parents.toList, isListed listed parent = true →
        isLeased (sync.leasesOf config before) parent = true ∨
          ∃ other ∈ earlier ++ [lease], other.shardId = parent ∧ before.get? other.leaseKey = none := by
  constructor
  · intro law earlier lease creates parent isParent isIn
    obtain ⟨later, inOrder⟩ := creates.inOrder
    have part : sync.missing config listed before = (earlier ++ [lease]) ++ later := by simpa using inOrder
    have stored : (before.createAll (earlier ++ [lease])).get? lease.leaseKey = some lease := by
      have isNamed := creates.named lease (by simp)
      rw [LeaseTable.get?_createAll, creates.isFree, Option.none_or, List.find?_append,
        List.find?_eq_none.2 ?_]
      · simp [isNamed]
      · intro other mem
        simp [creates.isFirst other mem]
    have leased := law (passes_created part creates.named) creates.isFree stored parent isParent isIn
    exact (isLeased_created keyed part creates.named).1 leased
  · intro inTime now passes
    have creating {created rest : List Lease} (part : sync.missing config listed before = created ++ rest)
        (named : Named created) : sync.ParentsLeased config listed before (before.createAll created) :=
      parentsLeased_created keyed part named inTime
    have ensures : (sync.syncStream stopped config : Script σ Job _).Ensures ⟨listed, mayFail⟩
        (sync.ParentsLeased config listed before) (fun _ _ => True) before :=
      syncStream_ensures rfl (fun _ _ => creating)
        (fun named _ _ => parentsLeased_erased keyed (creating (List.append_nil _).symm named))
        (fun _ _ _ => trivial) fun _ _ _ _ => trivial
    exact ensures.passes passes

end

/-! ### A child that is listed first -/

def familyStream : StreamConfig where
  stream := { accountId := some "123456789012", streamName := "a", creationEpoch := some 1, region := none }
  position := .latest
  arn := none

def familySync : ShardSync := { multi := true, retry := .standard }

def familyChild : ShardDescription := { shardId := "c", parents := ["p"] }

def familyParent : ShardDescription := { shardId := "p" }

/-- In an empty table the law holds if the parent is listed first, and not if the child is. -/
theorem parents_leased_when_listed_first :
    (∀ {now}, (familySync.syncStream (fun _ => false) familyStream : Script Unit Unit _).Passes
      ⟨[familyParent, familyChild], True⟩ .empty now →
        familySync.ParentsLeased familyStream [familyParent, familyChild] .empty now) ∧
    ¬∀ {now}, (familySync.syncStream (fun _ => false) familyStream : Script Unit Unit _).Passes
      ⟨[familyChild, familyParent], True⟩ .empty now →
        familySync.ParentsLeased familyStream [familyChild, familyParent] .empty now := by
  have keyed : LeaseTable.WellKeyed .empty := fun _ _ found => by cases found
  constructor
  · refine (parents_leased_iff keyed).2 fun {earlier lease} creates id isParent _ => ?_
    obtain ⟨later, inOrder⟩ := creates.inOrder
    match earlier, inOrder with
    | [], inOrder =>
      obtain ⟨rfl, _⟩ := List.cons.inj inOrder
      exact absurd isParent List.not_mem_nil
    | [first], inOrder =>
      obtain ⟨rfl, rest⟩ := List.cons.inj inOrder
      obtain ⟨rfl, _⟩ := List.cons.inj rest
      have only : ∀ id ∈ (SortedSet.ofList ["p"]).toList, id = "p" := by decide
      obtain rfl := only id isParent
      exact .inr ⟨_, List.mem_cons_self, rfl, rfl⟩
    | first :: second :: others, inOrder =>
      have none := (List.cons.inj (List.cons.inj inOrder).2).2
      simp at none
  · intro law
    have atOnce : familySync.CreatesAfter familyStream [familyChild, familyParent] .empty []
        (familySync.newLease familyStream [familyChild, familyParent] [] familyChild) :=
      { inOrder := ⟨_, rfl⟩
        named := by
          unfold Named
          decide +kernel
        isFree := rfl
        isFirst := fun _ mem => absurd mem List.not_mem_nil }
    have inTime := (parents_leased_iff keyed).1 law atOnce "p" (by decide) (by decide)
    revert inTime
    decide +kernel

end LeaseFleet
