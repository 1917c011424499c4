import LeaseFleet.Proofs.Script.SharedState
import LeaseFleet.Proofs.Coordinator.KeptSight

/-!
# The tasks of a coordinator

Everything that is asked of a coordinator, and every job that it starts, is a task, and its tasks
share the coordinator's state. What a task may do after what it has done is said by its journal
(`CoordinatorTask.May`): a listing whose time was read is taken in, and nothing else touches what was
seen; the living are noted as they were weighed; a taking cycle writes only leases of its own listing,
those of others only if it has judged them expired; a rebalancing pass calls the store only after it
has found that it leads. Every task keeps to this (`CoordinatorTask.follows`).
-/

namespace LeaseFleet

/-- What a worker goes by when it works out who is alive. -/
structure Weighing where
  /-- The state whose leases are gone through. -/
  known : Coordinator
  /-- The state whose observations count. -/
  looked : Coordinator
  instant : Nat
  summaries : Except StoreError (List WorkerSummary)
  epoch : Nat

namespace Weighing

/-- The summaries, if they came. -/
def reports (weighing : Weighing) : List WorkerSummary :=
  match weighing.summaries with
  | .ok summaries => summaries
  | .error _ => []

/-- The workers that are found alive. -/
def live (weighing : Weighing) : SortedSet String :=
  weighing.looked.livingWorkers weighing.known.allLeases weighing.instant weighing.reports weighing.epoch

end Weighing

namespace Journal

/-- A listing whose time was just read. -/
def listing? : Journal Coordinator → Option (Nat × List Lease)
  | .asked .clock time :: .asked (.store .list) (.ok leases) :: _ => some (time, leases)
  | _ => none

/-- All that a worker goes by, when it has just come together. -/
def weighing? : Journal Coordinator → Option Weighing
  | .asked .epoch epoch :: .asked .summaries summaries :: .asked .clock instant ::
      .changed looked _ :: .changed _ known :: _ => some { known, looked, instant, summaries, epoch }
  | _ => none

/-- A listing whose time was read is taken in. Nothing else touches what was seen, and the living are
noted as they were weighed. -/
def Watches (past : Journal Coordinator) (found now : Coordinator) : Prop :=
  match past.listing? with
  | some (time, leases) => now = found.observe leases time
  | none => found.SameSight now ∧ ∀ weighing ∈ past.weighing?, now.live = weighing.live

/-- A journal that ends with the taking in of a listing. -/
def taken (past : Journal Coordinator) (leases : List Lease) (time : Nat) (found : Coordinator) :
    Journal Coordinator :=
  .changed found (found.observe leases time) :: .asked .clock time :: .asked (.store .list) (.ok leases) ::
    past

/-- The write takes a lease of a listing that was taken in before. If somebody else owns the lease,
the worker has judged it expired since. -/
def Claimable (worker : String) (past : Journal Coordinator) (proposal : Lease) (expected : Nat) : Prop :=
  ∃ leases time found listed, taken listed leases time found <:+ past ∧
    ∃ lease ∈ leases, proposal = lease.transferredTo (some worker) ∧ expected = lease.counter ∧
      (lease.owner = none ∨ lease.owner = some worker ∨
        ∃ judged now earlier, .asked .clock now :: .changed judged judged :: earlier <:+ past ∧
          taken listed leases time found <:+ earlier ∧ judged.isExpired lease now = true)

/-- The worker has found that it leads. -/
def Led (worker : String) (past : Journal Coordinator) : Prop :=
  ∃ found now weighing, ∃ before : Journal Coordinator, .changed found now :: before <:+ past ∧
    before.weighing? = some weighing ∧ isLeaderAmong worker weighing.live = true

theorem Claimable.mono {worker : String} {past after : Journal Coordinator} {proposal : Lease}
    {expected : Nat} (claimable : past.Claimable worker proposal expected) (part : past <:+ after) :
    after.Claimable worker proposal expected := by
  obtain ⟨leases, time, found, listed, taken, lease, mem, proposed, counted, owned⟩ := claimable
  refine ⟨leases, time, found, listed, taken.trans part, lease, mem, proposed, counted, ?_⟩
  obtain unowned | own | ⟨judged, now, earlier, judging, since, expired⟩ := owned
  · exact .inl unowned
  · exact .inr (.inl own)
  · exact .inr (.inr ⟨judged, now, earlier, judging.trans part, since, expired⟩)

theorem Led.mono {worker : String} {past after : Journal Coordinator} (led : past.Led worker)
    (part : past <:+ after) : after.Led worker := by
  obtain ⟨found, now, weighing, before, noted, weighs, leads⟩ := led
  exact ⟨found, now, weighing, before, noted.trans part, weighs, leads⟩

/-- No listing and no weighing is under way. -/
def Idle (past : Journal Coordinator) : Prop := past.listing? = none ∧ past.weighing? = none

/-- Nothing is under way, as long as only acts of some kind follow. -/
def Settled (each : Act Coordinator → Prop) (past : Journal Coordinator) : Prop :=
  ∀ ⦃after : Journal Coordinator⦄, past.Grows each after → after.Idle

variable {past after : Journal Coordinator}

theorem listing?_eq_some {time : Nat} {leases : List Lease} (listing : past.listing? = some (time, leases)) :
    ∃ rest, past = .asked .clock time :: .asked (.store .list) (.ok leases) :: rest := by
  unfold listing? at listing
  split at listing
  · cases listing
    exact ⟨_, rfl⟩
  · cases listing

theorem weighing?_eq_some {weighing : Weighing} (weighs : past.weighing? = some weighing) :
    ∃ now found rest, past = .asked .epoch weighing.epoch :: .asked .summaries weighing.summaries ::
      .asked .clock weighing.instant :: .changed weighing.looked now :: .changed found weighing.known ::
        rest := by
  unfold weighing? at weighs
  split at weighs
  · cases weighs
    exact ⟨_, _, _, rfl⟩
  · cases weighs

theorem idle_of_forall (unlisted : ∀ time leases rest,
      past ≠ .asked .clock time :: .asked (.store .list) (.ok leases) :: rest)
    (unweighed : ∀ epoch summaries instant rest,
      past ≠ .asked .epoch epoch :: .asked .summaries summaries :: .asked .clock instant :: rest) :
    past.Idle := by
  constructor
  · refine Option.eq_none_iff_forall_ne_some.2 fun listing found => ?_
    obtain ⟨rest, same⟩ := listing?_eq_some found
    exact unlisted _ _ _ same
  · refine Option.eq_none_iff_forall_ne_some.2 fun weighing found => ?_
    obtain ⟨now, known, rest, same⟩ := weighing?_eq_some found
    exact unweighed _ _ _ _ same

theorem Idle.nil : Idle [] := ⟨rfl, rfl⟩

theorem Idle.changed (past : Journal Coordinator) (found now : Coordinator) :
    Idle (.changed found now :: past) := ⟨rfl, rfl⟩

theorem Settled.idle {each : Act Coordinator → Prop} (settled : past.Settled each) : past.Idle :=
  settled (.refl past)

theorem Settled.grows {each : Act Coordinator → Prop} (settled : past.Settled each)
    (grows : past.Grows each after) : after.Settled each :=
  fun _ further => settled (grows.trans further)

/-- Calm acts bring nothing under way that was not already begun. -/
theorem settled_quietly (begun : past = [] ∨ ∃ found now before, past = .changed found now :: before) :
    past.Settled Quietly := by
  rintro after ⟨new, rfl, kinds⟩
  have calm {act : Act Coordinator} (mem : act ∈ new) : Quietly act := kinds act mem
  refine idle_of_forall (fun time leases rest same => ?_) fun epoch summaries instant rest same => ?_
  · rcases new with _ | ⟨first, _ | ⟨second, new⟩⟩
    · rcases begun with rfl | ⟨found, now, before, rfl⟩ <;> cases same
    · rcases begun with rfl | ⟨found, now, before, rfl⟩ <;> cases same
    · cases same
      exact calm (.tail _ (.head _))
  · rcases new with _ | ⟨first, _ | ⟨second, new⟩⟩
    · rcases begun with rfl | ⟨found, now, before, rfl⟩ <;> cases same
    · rcases begun with rfl | ⟨found, now, before, rfl⟩ <;> cases same
    · obtain ⟨_, same⟩ := List.cons.inj same
      have summarized : Quietly (.asked .summaries summaries) :=
        calm ((List.cons.inj same).1 ▸ .tail _ (.head _))
      exact summarized

/-- Without the time nothing gets under way. -/
theorem settled_timelessly (found now : Coordinator) (past : Journal Coordinator) :
    Settled Timelessly (.changed found now :: past) := by
  rintro after ⟨new, rfl, kinds⟩
  have timeless {act : Act Coordinator} (mem : act ∈ new) : Timelessly act := kinds act mem
  refine idle_of_forall (fun time leases rest same => ?_) fun epoch summaries instant rest same => ?_
  · rcases new with _ | ⟨first, new⟩
    · cases same
    · cases (List.cons.inj same).1
      exact timeless (.head _) rfl
  · rcases new with _ | ⟨first, _ | ⟨second, _ | ⟨third, new⟩⟩⟩
    · cases same
    · cases same
    · cases same
    · cases same
      exact timeless (.tail _ (.tail _ (.head _))) rfl

theorem Idle.watches (idle : past.Idle) {found now : Coordinator} (same : found.SameSight now) :
    past.Watches found now := by
  unfold Watches
  rw [idle.1, idle.2]
  exact ⟨same, by simp⟩

/-- The living are noted as they were weighed. -/
theorem Watches.weighed {found now : Coordinator} {weighing : Weighing} (watches : past.Watches found now)
    (weighs : past.weighing? = some weighing) : now.live = weighing.live := by
  obtain ⟨_, _, _, rfl⟩ := weighing?_eq_some weighs
  exact watches.2 weighing weighs

theorem Watches.sameSelf {found now : Coordinator} (watches : past.Watches found now) :
    found.SameSelf now := by
  unfold Watches at watches
  split at watches
  · exact watches ▸ .observe found _ _
  · exact watches.1.toSameSelf

end Journal

/-- What is asked of a coordinator, and what it does beside that. -/
inductive CoordinatorTask where
  | adopt
  | take
  | renew
  | rebalance
  | isLeader
  | updateCheckpoint (leaseKey : String) (token : Token) (checkpoint : Checkpoint)
  | start
  | stop
  | job (job : CoordinatorJob)

namespace CoordinatorTask

def script : CoordinatorTask → CoordinatorScript Unit
  | .adopt => do let _ ← Coordinator.adopt; return ()
  | .take => do let _ ← Coordinator.take; return ()
  | .renew => Coordinator.renew
  | .rebalance => do let _ ← Coordinator.rebalance; return ()
  | .isLeader => do let _ ← Coordinator.isLeader; return ()
  | .updateCheckpoint leaseKey token checkpoint => do
    let _ ← Coordinator.updateCheckpoint leaseKey token checkpoint
    return ()
  | .start => Coordinator.start
  | .stop => Coordinator.stop
  | .job inner => do let _ ← Coordinator.perform inner; return ()

/-- The task is a taking cycle. -/
def Takes (task : CoordinatorTask) : Prop := task = .take ∨ task = .job .takingLoop

/-- The task is a rebalancing pass. -/
def Rebalances (task : CoordinatorTask) : Prop := task = .rebalance ∨ task = .job .rebalanceLoop

/-- What a task of a worker may do after what it has done. -/
def May (worker : String) (task : CoordinatorTask) (past : Journal Coordinator) : Act Coordinator → Prop
  | .changed found now => past.Watches found now
  | .asked (.store call) _ =>
    (task.Takes → ∀ {proposal expected}, call = .update proposal expected →
      past.Claimable worker proposal expected) ∧ (task.Rebalances → past.Led worker)
  | .asked _ _ => True

/-! ## What every task keeps to -/

section

variable {first : Coordinator} {task : CoordinatorTask} {past : Journal Coordinator} {α β : Type}

/-- The rules for a task of a worker. -/
abbrev rules (task : CoordinatorTask) (first : Coordinator) :
    Protocol Coordinator CoordinatorJob (Journal Coordinator) :=
  .recorded first.SameSelf (task.May first.workerId)

/-- Where nothing is under way, an act is open unless it is a store call that is not. -/
theorem may_of_within {asks : Query → Prop} {act : Act Coordinator} (idle : past.Idle)
    (within : act.Within asks) (called : ∀ call reply, asks (.store call) →
      task.May first.workerId past (.asked (.store call) reply)) : task.May first.workerId past act := by
  cases act with
  | changed found now => exact idle.watches within
  | asked query reply =>
    cases query with
    | store call => exact called call reply within
    | _ => trivial

/-- A calm act is open where nothing is under way. -/
theorem may_of_calm {writes : Lease → Nat → Prop} (settled : past.Settled Quietly)
    (unbalanced : ¬task.Rebalances) (claimable : task.Takes → ∀ proposal expected,
      writes proposal expected → past.Claimable first.workerId proposal expected) {after : Journal Coordinator}
    {act : Act Coordinator} (grows : past.Grows (Act.Within (Calm writes)) after)
    (calm : act.Within (Calm writes)) : task.May first.workerId after act := by
  have idle : after.Idle := settled (grows.imp fun act => Act.Within.quietly)
  refine may_of_within idle calm fun call reply allowed => ?_
  cases call with
  | update proposal expected =>
    refine ⟨fun takes _ _ same => ?_, fun rebalances => (unbalanced rebalances).elim⟩
    cases same
    exact (claimable takes proposal expected allowed).mono grows.suffix
  | _ => exact allowed.elim

theorem look_follows {wanted : Journal Coordinator → β → Prop} {next : Coordinator → CoordinatorScript β}
    (idle : past.Idle) (rest : ∀ state, first.SameSelf state →
      (next state).Follows (task.rules first) wanted (.changed state state :: past)) :
    (Script.look.bind next).Follows (task.rules first) wanted past :=
  Script.step_recorded (fun state _ => idle.watches (.refl state)) rest

/-- A listing is taken in with the time that is read. -/
theorem scan_follows {wanted : Journal Coordinator → β → Prop} {next : Unit → CoordinatorScript β}
    {leases : List Lease} (rest : ∀ time found,
      (next ()).Follows (task.rules first) wanted (past.taken leases time found)) :
    ((Coordinator.scan leases).bind next).Follows (task.rules first) wanted
      (.asked (.store .list) (.ok leases) :: past) := by
  refine Script.query_recorded (fun _ => trivial) fun time => ?_
  exact Script.change_recorded (fun found _ => rfl) fun found _ => rest time found

/-- The living are noted as they were weighed. -/
theorem findLiving_follows {wanted : Journal Coordinator → β → Prop}
    {next : SortedSet String → CoordinatorScript β} {found : Coordinator} (known : Coordinator)
    (rest : ∀ (before : Journal Coordinator) (weighing : Weighing) (state : Coordinator),
      .changed found known :: past <:+ before → before.weighing? = some weighing →
        (next weighing.live).Follows (task.rules first) wanted
          (.changed state { state with live := weighing.live } :: before)) :
    ((Coordinator.findLiving known.allLeases).bind next).Follows (task.rules first) wanted
      (.changed found known :: past) := by
  refine look_follows (.changed ..) fun looked _ => ?_
  refine Script.query_recorded (fun _ => trivial) fun instant => ?_
  refine Script.query_recorded (fun _ => trivial) fun summaries => ?_
  refine Script.query_recorded (fun _ => trivial) fun epoch => ?_
  intro state _ _
  refine ⟨_, ⟨⟨⟨⟨rfl, rfl, rfl⟩, rfl, rfl⟩, fun weighing weighs => ?_⟩, rfl⟩, ?_⟩
  · cases weighs
    rfl
  · exact rest _ { known, looked, instant, summaries, epoch } state (List.suffix_append [_, _, _, _] _) rfl

/-- After a listing goes on what follows it; when it fails, nothing is under way. -/
theorem list_follows {wanted : Journal Coordinator → β → Prop}
    {next : Except WorkerError (List Lease) → CoordinatorScript β} (idle : past.Idle)
    (unbalanced : ¬task.Rebalances)
    (listed : ∀ leases before, (next (.ok leases)).Follows (task.rules first) wanted
      (.asked (.store .list) (.ok leases) :: before))
    (failed : ∀ error after, after.Idle →
      (next (.error error)).Follows (task.rules first) wanted after) :
    ((Coordinator.store .list).bind next).Follows (task.rules first) wanted past := by
  refine look_follows idle fun state _ => (Script.follows_bind ..).2 ?_
  refine state.retry.store_recorded Coordinator.stopping (fun after act _ attempts => ?_)
    (fun before leases _ => listed leases before) fun after error grows => ?_
  · exact attempts.elim (fun _ => ⟨nofun, fun rebalances => (unbalanced rebalances).elim⟩)
      fun _ _ _ => trivial
  · exact failed error after (Journal.settled_timelessly _ _ _ (grows.imp Act.Attempts.timeless))

/-- A calm part, after which nothing is under way either. -/
theorem calm_follows {mid : α → Prop} {wanted : Journal Coordinator → β → Prop}
    {writes : Lease → Nat → Prop} {script : CoordinatorScript α} {next : α → CoordinatorScript β}
    (calm : script.Only first.SameSelf (Act.Within (Calm writes)) mid) (settled : past.Settled Quietly)
    (unbalanced : ¬task.Rebalances) (claimable : task.Takes → ∀ proposal expected,
      writes proposal expected → past.Claimable first.workerId proposal expected)
    (rest : ∀ (after : Journal Coordinator) value, past <:+ after → after.Settled Quietly → mid value →
      (next value).Follows (task.rules first) wanted after) :
    (script.bind next).Follows (task.rules first) wanted past := by
  refine calm.recorded_bind (fun _ _ => may_of_calm settled unbalanced claimable) ?_
  intro after value grows held
  exact rest after value grows.suffix (settled.grows (grows.imp fun _ => Act.Within.quietly)) held

/-- A taking cycle claims leases of its own listing, and those of others as expired. -/
theorem take_follows {wanted : Journal Coordinator → β → Prop}
    {next : Except WorkerError Unit → CoordinatorScript β} (idle : past.Idle)
    (unbalanced : ¬task.Rebalances)
    (rest : ∀ result after, after.Idle → (next result).Follows (task.rules first) wanted after) :
    (Coordinator.take.bind next).Follows (task.rules first) wanted past := by
  refine (Script.follows_bind ..).2 (list_follows idle unbalanced (fun leases listed => ?_)
    fun error after idle => ?_)
  · refine scan_follows fun time found => ?_
    refine findLiving_follows (found.observe leases time) fun past weighing state taken _ => ?_
    refine look_follows (.changed ..) fun before self => ?_
    have claims {after : Journal Coordinator} {own : List Lease} (since : past <:+ after)
        (among : ∀ lease ∈ own, lease ∈ leases ∧
          (lease.owner = none ∨ lease.owner = some first.workerId ∨ ∃ judged now earlier,
            .asked .clock now :: .changed judged judged :: earlier <:+ after ∧ past <:+ earlier ∧
              judged.isExpired lease now = true)) :
        ∀ proposal expected, Claims first.workerId own proposal expected →
          after.Claimable first.workerId proposal expected := by
      rintro _ _ ⟨lease, mem, rfl, rfl⟩
      obtain ⟨listing, owned⟩ := among lease mem
      refine ⟨leases, time, found, listed, taken.trans since, lease, listing, rfl, rfl, ?_⟩
      obtain unowned | own | ⟨judged, now, earlier, judging, seen, expired⟩ := owned
      · exact .inl unowned
      · exact .inr (.inl own)
      · exact .inr (.inr ⟨judged, now, earlier, judging, taken.trans seen, expired⟩)
    refine calm_follows (Coordinator.acquireAll_claims (before.assigned leases))
      (Journal.settled_quietly (.inr ⟨_, _, _, rfl⟩)) unbalanced (fun _ => claims ?_ fun lease mem => ?_)
      fun after result since settled _ => ?_
    · exact List.suffix_append [_, _] _
    · obtain ⟨listing, owned⟩ := List.mem_filter.1 mem
      have own : lease.owner = some before.workerId := by simp_all [Lease.isOwnedBy]
      exact ⟨listing, .inr (.inl (self.workerId ▸ own))⟩
    · cases result with
      | error error => exact rest _ _ settled.idle
      | ok _ =>
        refine look_follows settled.idle fun state _ => ?_
        dsimp only
        split
        · exact rest _ _ (.changed ..)
        · refine Script.query_recorded (fun _ => trivial) fun now => ?_
          rw [← Script.bind_done (Coordinator.claimShare ..)]
          have sincePast : past <:+ after := (List.suffix_append [_, _] _).trans since
          have judging : Journal.Settled Quietly
              (.asked .clock now :: .changed state state :: after) :=
            (Journal.settled_quietly (.inr ⟨_, _, _, rfl⟩)).grows ((Journal.Grows.refl _).cons trivial)
          refine calm_follows (Coordinator.claimShare_claims ..) judging unbalanced
            (fun _ => claims (sincePast.trans (List.suffix_append [_, _] _)) fun lease mem => ?_)
            fun after result _ settled _ => rest _ _ settled.idle
          rcases List.mem_append.1 mem with mem | mem
          · obtain ⟨listing, unowned⟩ := List.mem_filter.1 mem
            exact ⟨listing, .inl (by simp_all [Lease.isUnowned])⟩
          · obtain ⟨listing, expired⟩ := List.mem_filter.1 mem
            have expired : state.isExpired lease now = true := by simp_all
            exact ⟨listing, .inr (.inr ⟨state, now, after, List.suffix_refl _, sincePast, expired⟩)⟩
  · exact rest _ _ idle

/-- Adopting writes after its scan only. -/
theorem adopt_follows {wanted : Journal Coordinator → β → Prop}
    {next : Except WorkerError Unit → CoordinatorScript β} (idle : past.Idle)
    (unbalanced : ¬task.Rebalances) (untaking : ¬task.Takes)
    (rest : ∀ result after, (next result).Follows (task.rules first) wanted after) :
    (Coordinator.adopt.bind next).Follows (task.rules first) wanted past := by
  refine (Script.follows_bind ..).2 (list_follows idle unbalanced (fun leases listed => ?_)
    fun error after _ => rest _ _)
  refine scan_follows fun time found => look_follows (.changed ..) fun state _ => ?_
  refine calm_follows (Coordinator.acquireAll_claims _) (Journal.settled_quietly (.inr ⟨_, _, _, rfl⟩))
    unbalanced (fun takes => (untaking takes).elim) fun after result _ settled _ => ?_
  cases result with
  | error error => exact rest _ _
  | ok _ =>
    refine look_follows settled.idle fun state _ => ?_
    split
    · refine calm_follows Coordinator.releaseAll_calm (Journal.settled_quietly (.inr ⟨_, _, _, rfl⟩))
        unbalanced (fun takes => (untaking takes).elim) fun after _ _ _ _ => rest _ _
    · exact rest _ _

/-- A rebalancing pass calls the store only when it has found that it leads. -/
theorem rebalance_follows {wanted : Journal Coordinator → β → Prop}
    {next : Except WorkerError Nat → CoordinatorScript β} (idle : past.Idle) (untaking : ¬task.Takes)
    (rest : ∀ result after, (next result).Follows (task.rules first) wanted after) :
    (Coordinator.rebalance.bind next).Follows (task.rules first) wanted past := by
  refine (Script.follows_bind ..).2 (look_follows idle fun known _ => ?_)
  refine findLiving_follows known fun before weighing state _ weighs => ?_
  have settled := Journal.settled_timelessly state { state with live := weighing.live } before
  have shown : (Coordinator.leads weighing.live : CoordinatorScript Bool).Only first.SameSelf
      (Act.Within Shown)
      fun leading => leading = isLeaderAmong first.workerId weighing.live :=
    Coordinator.leads_within (fun _ => trivial) weighing.live
  refine shown.recorded_bind (fun after act grows shown => ?_) fun after leading grows found => ?_
  · have idle : after.Idle := settled (grows.imp Act.Within.timeless)
    exact may_of_within idle shown fun _ _ => False.elim
  · cases leading with
    | false => exact rest _ _
    | true =>
      have led : after.Led first.workerId :=
        ⟨state, _, weighing, before, grows.suffix, weighs, found.symm⟩
      refine (Script.Only.recorded (Coordinator.lead_timeless weighing.live)
        fun later act further timeless => ?_).imp fun after result _ => rest _ _
      have idle : later.Idle := settled ((grows.imp Act.Within.timeless).trans further)
      exact may_of_within idle timeless fun _ _ _ =>
        ⟨fun takes => (untaking takes).elim, fun _ => led.mono further.suffix⟩

/-- A task all of which is calm. -/
theorem follows_of_calm {script : CoordinatorScript α} (calm : script.Keeps first.SameSelf Quietly)
    (unbalanced : ¬task.Rebalances) (untaking : ¬task.Takes) :
    (script.bind fun _ => .done ()).Follows (task.rules first) (fun _ _ => True) [] :=
  calm_follows calm (Journal.settled_quietly (.inl rfl)) unbalanced (fun takes => (untaking takes).elim)
    fun _ _ _ _ _ => trivial

/-- The end of a loop is open where nothing is under way. -/
theorem endLoop_follows (idle : past.Idle) :
    (Coordinator.endLoop.bind fun _ => .done ()).Follows (task.rules first) (fun _ _ => True) past :=
  fun _ _ _ => ⟨_, ⟨idle.watches ⟨⟨rfl, rfl, rfl⟩, rfl, rfl⟩, rfl⟩, trivial⟩

/-- Every task does only what it may. -/
theorem follows (task : CoordinatorTask) :
    task.script.Follows (task.rules first) (fun _ _ => True) [] := by
  cases task with
  | adopt => exact adopt_follows .nil (by simp [Rebalances]) (by simp [Takes]) fun _ _ => trivial
  | take => exact take_follows .nil (by simp [Rebalances]) fun _ _ _ => trivial
  | renew =>
    rw [script, ← Script.bind_done Coordinator.renew]
    exact follows_of_calm Coordinator.renew_calm (by simp [Rebalances]) (by simp [Takes])
  | rebalance => exact rebalance_follows .nil (by simp [Takes]) fun _ _ => trivial
  | isLeader => exact follows_of_calm Coordinator.isLeader_calm (by simp [Rebalances]) (by simp [Takes])
  | updateCheckpoint leaseKey token checkpoint =>
    exact follows_of_calm (Coordinator.updateCheckpoint_calm leaseKey token checkpoint)
      (by simp [Rebalances]) (by simp [Takes])
  | start =>
    rw [script, ← Script.bind_done Coordinator.start]
    exact follows_of_calm Coordinator.start_calm (by simp [Rebalances]) (by simp [Takes])
  | stop =>
    rw [script, ← Script.bind_done Coordinator.stop]
    exact follows_of_calm Coordinator.stop_calm (by simp [Rebalances]) (by simp [Takes])
  | job inner =>
    cases inner with
    | renewal held =>
      exact follows_of_calm ((Coordinator.renewOne_calm held).bind fun _ _ => trivial)
        (by simp [Rebalances]) (by simp [Takes])
    | release held =>
      exact follows_of_calm ((Coordinator.releaseOne_calm held).bind fun _ _ => trivial)
        (by simp [Rebalances]) (by simp [Takes])
    | renewalLoop =>
      refine follows_of_calm ((Coordinator.nextCycle_calm _).bind fun goesOn _ => ?_)
        (by simp [Rebalances]) (by simp [Takes])
      cases goesOn with
      | true => exact Coordinator.renew_calm.bind fun _ _ => trivial
      | false => exact Coordinator.endLoop_calm
    | takingLoop =>
      refine (Script.follows_bind ..).2 (take_follows .nil (by simp [Rebalances]) fun _ after idle => ?_)
      refine look_follows idle fun state _ goesOn => ?_
      cases goesOn with
      | true => trivial
      | false => exact (Script.follows_bind ..).1 (endLoop_follows (.changed ..))
    | rebalanceLoop =>
      refine look_follows .nil fun state _ goesOn => ?_
      cases goesOn with
      | true =>
        refine (Script.follows_bind ..).2 (rebalance_follows (.changed ..) (by simp [Takes]) fun _ _ => ?_)
        trivial
      | false => exact endLoop_follows (.changed ..)

end

end CoordinatorTask

end LeaseFleet
