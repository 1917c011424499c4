import LeaseFleet.Proofs.Script.Journals
import LeaseFleet.Worker.Duty

/-!
# Scripts of one kind

Scripts all acts of which are of one kind, whatever state they find (`Script.Stays`). Syncing shards and
streams consists of questions alone, so it stays in every kind to which all questions belong.
-/

namespace LeaseFleet

namespace Script

variable {σ τ Job Other α β : Type} {each : Act σ → Prop}

/-- Every act of the script is of the kind, whatever state it finds. -/
abbrev Stays (each : Act σ → Prop) (script : Script σ Job α) : Prop := script.Keeps (fun _ => True) each

theorem Stays.bind {script : Script σ Job α} {following : α → Script σ Job β} (first : script.Stays each)
    (rest : ∀ value, (following value).Stays each) : (script.bind following).Stays each :=
  Only.bind first fun value _ => rest value

theorem sleep_stays {millis : Nat} {stopped : σ → Bool} {next : Bool → Script σ Job α}
    (rest : ∀ complete, (next complete).Stays each) :
    ((Script.sleep millis stopped .done).bind next).Stays each := rest

/-- A script on a part of the state stays in the kind if all changes of this part do. -/
theorem embed_stays {part : Part σ τ} {rename : Other → Job} (asked : ∀ query reply, each (.asked query reply))
    (changed : ∀ whole value, each (.changed whole (part.put value whole))) (script : Script τ Other α) :
    (script.embed part rename : Script σ Job α).Stays each := by
  induction script with
  | done value => trivial
  | ask query next ih => exact fun reply _ => ⟨(), asked query reply, ih reply⟩
  | step ready change next ih => exact fun whole _ _ => ⟨(), changed _ _, ih _⟩
  | sleep millis stopped next ih => exact fun complete => ih complete
  | spawn job next ih => exact ⟨(), (), trivial, ih⟩
  | gather jobs next ih => exact gather_only _ ih

/-- A script on a part of the state stays in the kind if the changes that it makes of this part do. -/
theorem Stays.embed {part : Part σ τ} {rename : Other → Job} {inner : Act τ → Prop} {script : Script τ Other α}
    (asked : ∀ query reply, each (.asked query reply))
    (changed : ∀ whole value, inner (.changed (part.get whole) value) → each (.changed whole (part.put value whole)))
    (stays : script.Stays inner) : (script.embed part rename : Script σ Job α).Stays each :=
  Follows.embed _ (fun _ _ => id) (fun _ => id) (fun _ query reply _ _ => asked query reply)
    (fun _ whole value _ => changed whole value) (fun _ _ _ _ => id) stays

end Script

/-! ## Shards and streams -/

section

variable {σ Job : Type} {each : Act σ → Prop} (asked : ∀ query reply, each (.asked query reply))

include asked

theorem RetryPolicy.store_stays (policy : RetryPolicy) (stopped : σ → Bool) (call : StoreCall) :
    (policy.store stopped call : Script σ Job _).Stays each :=
  policy.store_only stopped fun _ attempts => attempts.elim (asked _) fun _ _ => asked _

namespace ShardSync

variable (sync : ShardSync) (stopped : σ → Bool)

theorem streamLeases_stays (stream : StreamIdentifier) :
    (sync.streamLeases stopped stream : Script σ Job _).Stays each := by
  refine (sync.retry.store_stays asked stopped .list).bind fun result => ?_
  cases result <;> trivial

theorem createLeases_stays (leases : List Lease) (created : Nat) :
    (sync.createLeases stopped leases created : Script σ Job _).Stays each := by
  induction leases generalizing created with
  | nil => trivial
  | cons lease rest ih =>
    refine (sync.retry.store_stays asked stopped _).bind fun result => ?_
    cases result with
    | error error => trivial
    | ok isNew => exact ih _

theorem deleteLeases_stays (leases : List Lease) :
    (sync.deleteLeases stopped leases : Script σ Job _).Stays each := by
  induction leases with
  | nil => trivial
  | cons lease rest ih =>
    refine (sync.retry.store_stays asked stopped _).bind fun result => ?_
    cases result with
    | error error => trivial
    | ok _ => exact ih

theorem record_stays (measurement : Measurement) :
    (Script.record measurement : Script σ Job Unit).Stays each :=
  Script.query_only (asked _)

theorem syncStream_stays (config : StreamConfig) :
    (sync.syncStream stopped config : Script σ Job _).Stays each := by
  refine Script.Stays.bind (Script.query_only (asked _)) fun listed => ?_
  cases listed with
  | error reason => trivial
  | ok listed =>
    refine (sync.streamLeases_stays asked stopped config.stream).bind fun existing => ?_
    cases existing with
    | error error => trivial
    | ok existing =>
      refine (sync.createLeases_stays asked stopped _ 0).bind fun created => ?_
      cases created with
      | error error => trivial
      | ok created =>
        refine (sync.deleteLeases_stays asked stopped _).bind fun deleted => ?_
        cases deleted with
        | error error => trivial
        | ok _ => exact (record_stays asked _).bind fun _ => (record_stays asked _).bind fun _ => trivial

theorem deleteStreamLeases_stays (stream : StreamIdentifier) :
    (sync.deleteStreamLeases stopped stream : Script σ Job _).Stays each := by
  refine (sync.streamLeases_stays asked stopped stream).bind fun leases => ?_
  cases leases with
  | error error => trivial
  | ok leases =>
    refine (sync.deleteLeases_stays asked stopped leases).bind fun deleted => ?_
    cases deleted with
    | error error => trivial
    | ok _ => exact (record_stays asked _).bind fun _ => trivial

end ShardSync

namespace Synchronizer

variable (stopped : σ → Bool)

theorem takeInLeases_stays (synchronizer : Synchronizer) (leases : List Lease) :
    (synchronizer.takeInLeases leases : Script σ Job _).Stays each :=
  Script.Stays.bind (Script.query_only (asked _)) fun _ =>
    Script.Stays.bind (Script.query_only (asked _)) fun _ => trivial

theorem reconcile_stays (synchronizer : Synchronizer) :
    (synchronizer.reconcile stopped : Script σ Job _).Stays each := by
  unfold reconcile
  split
  · refine (synchronizer.sync.retry.store_stays asked stopped .list).bind fun result => ?_
    cases result with
    | error error => trivial
    | ok leases => exact (takeInLeases_stays asked synchronizer leases).bind fun _ => trivial
  · trivial

theorem syncNewStreams_stays (configs : List StreamConfig) (synchronizer : Synchronizer) (changed : Changed) :
    (syncNewStreams stopped configs synchronizer changed : Script σ Job _).Stays each := by
  induction configs generalizing synchronizer changed with
  | nil => trivial
  | cons config rest ih =>
    refine (synchronizer.sync.syncStream_stays asked stopped config).bind fun result => ?_
    cases result <;> exact ih _ _

theorem deleteStreams_stays (streams : List StreamIdentifier) (synchronizer : Synchronizer)
    (changed : Changed) :
    (deleteStreams stopped streams synchronizer changed : Script σ Job _).Stays each := by
  induction streams generalizing synchronizer changed with
  | nil => trivial
  | cons stream rest ih =>
    refine (synchronizer.sync.deleteStreamLeases_stays asked stopped stream).bind fun result => ?_
    cases result <;> exact ih _ _

theorem retireStreams_stays (synchronizer : Synchronizer) (wanted : SortedMap StreamIdentifier StreamConfig)
    (changed : Changed) :
    (synchronizer.retireStreams stopped wanted changed : Script σ Job _).Stays each :=
  Script.Stays.bind (Script.query_only (asked _)) fun _ =>
    Script.Stays.bind (Script.query_only (asked _)) fun _ => deleteStreams_stays asked stopped _ _ _

theorem runPass_stays (synchronizer : Synchronizer) (force : Bool) :
    (synchronizer.runPass stopped force : Script σ Job _).Stays each := by
  refine Script.Stays.bind (Script.query_only (asked _)) fun now => ?_
  split
  · trivial
  · refine (reconcile_stays asked stopped synchronizer).bind fun result => ?_
    cases result with
    | error error => trivial
    | ok synchronizer =>
      refine Script.Stays.bind (Script.query_only (asked _)) fun configs => ?_
      refine (syncNewStreams_stays asked stopped _ _ _).bind fun (changed, synchronizer) => ?_
      have ended (changed : Changed) (synchronizer : Synchronizer) : (do
          let now ← Script.query .clock
          Script.gaugeNat .trackedStreams synchronizer.streams.size
          Script.record (.sample .streamSync)
          return (.ok changed, { synchronizer with lastSync := some now }) :
            Script σ Job (Except WorkerError Changed × Synchronizer)).Stays each :=
        Script.Stays.bind (Script.query_only (asked _)) fun _ =>
          (ShardSync.record_stays asked _).bind fun _ => (ShardSync.record_stays asked _).bind fun _ => trivial
      dsimp only
      split
      · exact (retireStreams_stays asked stopped synchronizer _ changed).bind fun _ => ended _ _
      · exact ended changed synchronizer

end Synchronizer

end

end LeaseFleet
