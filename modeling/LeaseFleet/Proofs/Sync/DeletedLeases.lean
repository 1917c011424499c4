import LeaseFleet.Proofs.Sync.PassParts

/-!
# The leases that syncing deletes

Syncing the shards of a stream deletes leases of its own listing only, and only such as are listed under
that stream (`ShardSync.syncStream_trims`). Whatever is stored under their keys by then still carries the
stream, since in between leases of this stream are created only. Of a pass, all parts but the deletion of
due streams delete nothing else (`PassParts.Played.trims`).
-/

namespace LeaseFleet

variable {σ Job : Type}

/-- A lease was listed with the key and the stream, and since then leases of this stream were created,
if any, and leases deleted. -/
def ListedFor (stream : Option String) (leaseKey : String) (past : Journal σ) : Prop :=
  ∃ leases earlier,
    Journal.Grows (Act.Tends stream) (.asked (.store .list) (.ok leases) :: earlier) past ∧
      ∃ lease ∈ leases, lease.leaseKey = leaseKey ∧ lease.stream = stream

/-- Every deletion is of a lease that was listed for one of the streams. -/
def Journal.Trims (streams : Option String → Prop) (past : Journal σ) : Prop :=
  ∀ ⦃leaseKey : String⦄ ⦃reply : Except StoreError Unit⦄ ⦃before : Journal σ⦄,
    .asked (.store (.delete leaseKey)) reply :: before <:+ past →
      ∃ stream, streams stream ∧ ListedFor stream leaseKey before

/-- An act that deletes no lease. -/
def Act.Spares : Act σ → Prop
  | asked (.store (.delete _)) _ => False
  | _ => True

theorem ListedFor.append {stream : Option String} {leaseKey : String} {past : Journal σ}
    (listed : ListedFor stream leaseKey past) (earlier : Journal σ) :
    ListedFor stream leaseKey (past ++ earlier) := by
  obtain ⟨leases, before, ⟨new, rfl, tends⟩, found⟩ := listed
  exact ⟨leases, before ++ earlier, ⟨new, by simp, tends⟩, found⟩

/-- Whatever is stored under the key has the stream for which it was listed. -/
theorem ListedFor.stream_eq {stream : Option String} {leaseKey : String} {past : Journal σ}
    (listed : ListedFor stream leaseKey past) {table : LeaseTable} (onTable : past.OnTable table)
    {stored : Lease} (found : table.get? leaseKey = some stored) : stored.stream = stream := by
  obtain ⟨leases, earlier, since, lease, mem, rfl, rfl⟩ := listed
  exact onTable.stream_eq since mem found

namespace Journal

variable {streams more : Option String → Prop} {past earlier later : Journal σ}

theorem trims_of_spares (spares : ∀ act ∈ past, act.Spares) : past.Trims streams :=
  fun _ _ _ found => (spares _ (found.subset List.mem_cons_self)).elim

theorem Trims.append (first : later.Trims streams) (second : earlier.Trims streams) :
    Trims streams (later ++ earlier) := by
  intro leaseKey reply before found
  obtain within | ⟨mid, within, rfl⟩ : .asked (.store (.delete leaseKey)) reply :: before <:+ earlier ∨
      ∃ mid, .asked (.store (.delete leaseKey)) reply :: mid <:+ later ∧ before = mid ++ earlier := by
    obtain ⟨new, same⟩ := found
    obtain ⟨mid, rfl, rest⟩ | ⟨mid, rfl, rest⟩ := List.append_eq_append_iff.1 same
    · cases mid with
      | nil => exact .inl (rest ▸ List.suffix_refl _)
      | cons act mid =>
        obtain ⟨rfl, rfl⟩ := List.cons.inj rest
        exact .inr ⟨mid, List.suffix_append .., rfl⟩
    · exact .inl (rest ▸ List.suffix_append ..)
  · exact second within
  · obtain ⟨stream, isOne, listed⟩ := first within
    exact ⟨stream, isOne, listed.append earlier⟩

theorem Trims.cons {act : Act σ} (spares : act.Spares) (trims : past.Trims streams) :
    Trims streams (act :: past) := by
  intro leaseKey reply before found
  obtain same | found := List.suffix_cons_iff.1 found
  · obtain ⟨rfl, rfl⟩ := List.cons.inj same
    exact spares.elim
  · exact trims found

theorem Trims.imp (trims : past.Trims streams) (weaken : ∀ stream, streams stream → more stream) :
    past.Trims more := by
  intro leaseKey reply before found
  obtain ⟨stream, isOne, listed⟩ := trims found
  exact ⟨stream, weaken stream isOne, listed⟩

end Journal

/-- All acts of a part of one kind are of that kind. -/
theorem Script.Only.plays {α : Type} {each : Act σ → Prop} {wanted : α → Prop} {script : Script σ Job α}
    {past : Journal σ} {value : α} (keeps : script.Only (fun _ => True) each wanted)
    (plays : script.Plays past (.done value)) : ∀ act ∈ past, each act := by
  have follows : script.Follows (.recorded (fun _ => True) fun _ => each) _ [] :=
    keeps.recorded fun _ _ _ kind => kind
  obtain ⟨⟨new, rfl, kinds⟩, _⟩ := (follows.plays plays fun act _ => act.seen_of_any).1
  simpa using kinds

namespace ShardSync

variable (sync : ShardSync) (stopped : σ → Bool) {sees : σ → Prop}

/-- What the deletions of a sync must be like. -/
def Trimming (stream : Option String) (past : Journal σ) : Act σ → Prop
  | .asked (.store (.delete leaseKey)) _ => ListedFor stream leaseKey past
  | _ => True

theorem createLeases_attempts {stream : Option String} {leases : List Lease} {created : Nat}
    (ofStream : ∀ lease ∈ leases, lease.stream = stream) :
    (sync.createLeases stopped leases created : Script σ Job _).Keeps sees
      fun act => ∃ lease, lease.stream = stream ∧ act.Attempts (.create lease) := by
  induction leases generalizing created with
  | nil => trivial
  | cons lease rest ih =>
    obtain ⟨first, others⟩ := List.forall_mem_cons.1 ofStream
    refine (sync.retry.store_only stopped fun act attempts => ⟨lease, first, attempts⟩).bind
      fun result _ => ?_
    cases result with
    | error error => trivial
    | ok isNew => exact ih others

theorem streamOf_missingLeases {config : StreamConfig} {listed : List ShardDescription}
    {existing : List Lease} {lease : Lease} (mem : lease ∈ sync.missingLeases config listed existing) :
    lease.stream = (sync.leaseStream config.stream).map StreamIdentifier.serialize := by
  obtain ⟨shard, _, rfl⟩ := List.mem_map.1 mem
  rfl

/-- Syncing the shards of a stream deletes leases that it has listed for this stream. -/
theorem syncStream_follows (config : StreamConfig) :
    (sync.syncStream stopped config : Script σ Job _).Follows
      (.recorded sees (Trimming ((sync.leaseStream config.stream).map StreamIdentifier.serialize)))
      (fun _ _ => True) [] := by
  let stream := (sync.leaseStream config.stream).map StreamIdentifier.serialize
  refine Script.query_recorded (fun _ => trivial) fun listed => ?_
  cases listed with
  | error reason => trivial
  | ok listed =>
    refine (Script.follows_bind ..).2 ((Script.follows_bind ..).2 (sync.retry.store_recorded stopped
      (fun after act _ attempts => ?_) (fun before leases _ => ?_) fun _ _ _ => trivial))
    · exact attempts.elim (fun _ => trivial) fun _ _ _ => trivial
    · let listing : Journal σ := .asked (.store .list) (.ok leases) :: before
      refine (sync.createLeases_attempts stopped fun lease => sync.streamOf_missingLeases).recorded_bind
        (fun after act _ kind => ?_) fun after result grows _ => ?_
      · obtain ⟨_, _, attempts⟩ := kind
        exact attempts.elim (fun _ => trivial) fun _ _ _ => trivial
      · have since : listing.Grows (Act.Tends stream) after := grows.imp fun act ⟨lease, same, attempts⟩ =>
          attempts.elim (fun _ => same) fun _ _ _ => trivial
        cases result with
        | error error => trivial
        | ok created =>
          refine (Script.follows_bind ..).2 ((sync.deleteLeases_recorded stopped
            (fun later grown lease mem _ => ?_) fun _ _ _ _ => trivial).imp fun _ result _ => ?_)
          · obtain ⟨inListing, covered⟩ := List.mem_filter.1 (List.mem_filter.1 mem).1
            exact ⟨leases, before, since.trans (grown.imp fun _ => Act.Erases.tends), lease, inListing, rfl,
              by simpa [covers] using covered⟩
          · cases result with
            | error error => trivial
            | ok _ =>
              exact Script.query_recorded (fun _ => trivial) fun _ =>
                Script.query_recorded (fun _ => trivial) fun _ => trivial

theorem syncStream_trims {config : StreamConfig} {past : Journal σ}
    {result : Except WorkerError SyncReport}
    (plays : (sync.syncStream stopped config : Script σ Job _).Plays past (.done result)) :
    past.Trims (· = (sync.leaseStream config.stream).map StreamIdentifier.serialize) := by
  intro leaseKey reply before found
  have follows : (sync.syncStream stopped config : Script σ Job _).Follows
      (.recorded (fun _ => True) _) _ [] := sync.syncStream_follows stopped config
  exact ⟨_, rfl, (follows.plays plays fun act _ => act.seen_of_any).2 found⟩

end ShardSync

theorem Script.PlaysEach.trims {ι ε α : Type} {script : ι → Script σ Job (Except ε α)}
    {items done failed : List ι} {past : Journal σ} {streams : Option String → Prop}
    (each : PlaysEach script items past done failed)
    (one : ∀ item ∈ items, ∀ {earlier result}, (script item).Plays earlier (.done result) →
      Journal.Trims streams earlier) : past.Trims streams := by
  induction each with
  | nil => exact Journal.trims_of_spares (by simp)
  | ok first _ ih | error first _ ih =>
    obtain ⟨head, others⟩ := List.forall_mem_cons.1 one
    exact (ih others).append (head first)

theorem Synchronizer.reconcile_spares (synchronizer : Synchronizer) (stopped : σ → Bool)
    {sees : σ → Prop} : (synchronizer.reconcile stopped : Script σ Job _).Keeps sees Act.Spares := by
  unfold reconcile
  split
  · refine (synchronizer.sync.retry.store_only stopped fun _ attempts =>
      attempts.elim (fun _ => trivial) fun _ _ _ => trivial).bind fun listed _ => ?_
    cases listed with
    | error error => trivial
    | ok leases =>
      have taken : (synchronizer.takeInLeases leases : Script σ Job _).Keeps sees Act.Spares :=
        Script.Only.bind (Script.query_only fun _ => trivial) fun _ _ =>
          Script.Only.bind (Script.query_only fun _ => trivial) fun _ _ => trivial
      exact taken.bind fun _ _ => trivial
  · trivial

namespace PassParts

variable {parts : PassParts σ} {stopped : σ → Bool} {first : Synchronizer}

/-- What leases carry of the streams to consume. -/
def Listed (parts : PassParts σ) (stream : Option String) : Prop :=
  ∃ config ∈ parts.configs,
    stream = (parts.base.sync.leaseStream config.stream).map StreamIdentifier.serialize

/-- A pass that keeps the leases of missing streams deletes only what it has listed for streams to
consume. -/
theorem Played.trims (played : parts.Played Job stopped first) (keeps : parts.strategy = .keep) :
    parts.journal.Trims parts.Listed := by
  have nothing : Journal.Trims parts.Listed ([] : Journal σ) := Journal.trims_of_spares (by simp)
  have started : Journal.Trims parts.Listed [.asked .clock parts.started] := nothing.cons trivial
  have reconciling : Journal.Trims parts.Listed
      (.asked .trackedStreams parts.configs :: parts.reconciling) :=
    .cons trivial (Journal.trims_of_spares ((first.reconcile_spares stopped).plays played.reconciled))
  have syncing : parts.syncing.Trims parts.Listed := played.syncs.trims fun config mem _ _ plays =>
    (parts.base.sync.syncStream_trims stopped plays).imp fun stream same =>
      ⟨config, Synchronizer.mem_of_mem_newStreams mem, same⟩
  have retiring : Journal.Trims parts.Listed
      (.asked .deletionStrategy parts.strategy :: .asked .clock parts.now :: parts.syncing) :=
    .cons trivial (.cons trivial syncing)
  have deleting : parts.deleting.Trims parts.Listed := by
    have each := played.deletes
    rw [keeps] at each
    rw [each.of_nil]
    exact nothing
  have ending : Journal.Trims parts.Listed [.asked (.record (.sample .streamSync)) (),
      .asked (.record (.level .trackedStreams (floatOfNat parts.last.streams.size))) (),
      .asked .clock parts.ended] := .cons trivial (.cons trivial (.cons trivial nothing))
  exact (((ending.append deleting).append retiring).append reconciling).append started

end PassParts

end LeaseFleet
