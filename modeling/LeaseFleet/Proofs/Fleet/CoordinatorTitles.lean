import LeaseFleet.Proofs.Fleet.TokenTitles

/-!
# Entitled coordinators

Every script of a coordinator goes by titles only: acquiring earns them, renewing and checkpointing
spend them, and the others need none. The last result, `perform_titling`, is about the background jobs.
-/

namespace LeaseFleet

/-- The office of a coordinator's job. -/
def CoordinatorJob.office : CoordinatorJob → Office
  | renewal held => .tends held.lease.leaseKey held.token
  | takingLoop => .takes
  | release _ | renewalLoop | rebalanceLoop => .other

theorem Office.isFree_takes : Office.takes.IsFree := fun _ _ => nofun

theorem Office.isFree_other : Office.other.IsFree := fun _ _ => nofun

namespace Coordinator

variable {office : Office} {titles : Titles}

theorem store_titling (call : StoreCall) {wanted : Titles → Except WorkerError call.Answer → Prop}
    (entitled : Entitled office titles (.store call))
    (answered : ∀ answer, Faithful (.store call) (.ok answer) →
      ∃ after, Earns office titles (.store call) (.ok answer) after ∧ wanted after (.ok answer))
    (failed : ∀ reason, wanted titles (.error reason)) :
    (store call).Follows (titling office) wanted titles := by
  refine look_titling fun state _ => state.retry.store_follows stopping ?_ ?_ ?_
  · intro answer heard
    obtain ⟨after, earns, held⟩ := answered answer heard
    exact ⟨after, ⟨entitled, earns⟩, held⟩
  · exact fun error _ => ⟨⟨entitled, earns_nothing ..⟩, failed⟩
  · exact fun low high reply => ⟨trivial, earns_nothing ..⟩

/-! ## Writing under a token -/

section

variable {leaseKey : String} {token : Token} {base proposal : Lease}

/-- The write of a copy of the token gives the title to what it has stored. -/
theorem store_titling_of_copy {wanted : Titles → Except WorkerError UpdateOutcome → Prop}
    (copy : titles (.copy base token)) (isKey : base.leaseKey = leaseKey) (sameKey : proposal.leaseKey = leaseKey)
    (applied : ∀ (earned : Titles) (outcome : UpdateOutcome),
      (∀ stored, outcome = .updated stored → stored.leaseKey = leaseKey ∧ earned (.copy stored token)) →
        wanted earned (.ok outcome))
    (failed : ∀ reason, wanted titles (.error reason)) :
    (store (.update proposal base.counter)).Follows (titling (.tends leaseKey token)) wanted titles := by
  refine store_titling (.update proposal base.counter) ?_ (fun outcome heard => ?_) failed
  · rintro key under same
    obtain ⟨rfl, rfl⟩ := Office.tends.inj same
    exact ⟨sameKey, base, copy, isKey, rfl⟩
  · cases outcome with
    | updated stored =>
      have gives : Gives (.tends leaseKey token) titles (.store (.update proposal base.counter))
          (.ok (.updated stored)) (.copy stored token) := rfl
      have written : stored = { proposal with counter := base.counter + 1 } := heard
      refine ⟨_, gives.earns, applied _ _ fun other same => ?_⟩
      cases same
      exact ⟨by rw [written]; exact sameKey, .inr rfl⟩
    | versionConflict => exact ⟨titles, earns_nothing .., applied _ _ nofun⟩
    | notFound => exact ⟨titles, earns_nothing .., applied _ _ nofun⟩

theorem dropHeld_titling :
    (dropHeld leaseKey token).Returns (titling (.tends leaseKey token)) titles :=
  step_titling (fun _ => id) (fun _ => changes_drop rfl) fun _ _ => record_titling _

/-- What came of a write is applied under the token of the write. -/
theorem applyWrite_titling {outcome : UpdateOutcome}
    (stored : ∀ lease, outcome = .updated lease → lease.leaseKey = leaseKey ∧ titles (.copy lease token)) :
    (applyWrite leaseKey token outcome).Returns (titling (.tends leaseKey token)) titles := by
  have lost : (do
      Script.count .leasesLost 1
      dropHeld leaseKey token
      return false : CoordinatorScript Bool).Returns (titling (.tends leaseKey token)) titles :=
    (record_titling _).bind fun _ => dropHeld_titling.bind fun _ => rfl
  cases outcome with
  | updated lease =>
    obtain ⟨isKey, copy⟩ := stored lease rfl
    refine (query_titling .clock trivial).bind fun now => ?_
    exact step_titling (fun _ => id) (fun _ => changes_confirm rfl copy isKey now) fun _ _ => rfl
  | versionConflict => exact lost
  | notFound => exact lost

theorem renewOne_titling {held : HeldLease} (copy : titles (.copy held.lease held.token)) :
    (renewOne held).Follows (titling (.tends held.lease.leaseKey held.token)) (fun _ _ => True) titles := by
  refine (Script.follows_bind ..).2 (store_titling_of_copy copy rfl rfl (fun earned outcome stored => ?_)
    fun reason => ?_)
  · exact (applyWrite_titling stored).bind fun _ => trivial
  · refine (record_titling _).bind fun _ => (query_titling .clock trivial).bind fun now => ?_
    refine look_titling fun state _ => ?_
    split
    · exact dropHeld_titling.imp fun _ _ _ => trivial
    · trivial

theorem updateCheckpoint_titling (leaseKey : String) (token : Token) (position : Checkpoint) :
    (updateCheckpoint leaseKey token position).Safe (titling (.tends leaseKey token)) := by
  refine fun titles => step_copying (fun _ => .of_same_held rfl) fun state keyed => ?_
  cases found : state.held.get? leaseKey with
  | none => trivial
  | some held =>
    dsimp only
    split
    · rename_i same
      subst same
      refine (Script.follows_bind ..).2 (store_titling_of_copy (.inr ⟨leaseKey, held, found, rfl⟩)
        (keyed found) (keyed found) (fun earned outcome stored => ?_) fun reason => trivial)
      exact (applyWrite_titling stored).bind fun _ => trivial
    · trivial

end

/-! ## Acquiring -/

/-- Starts to hold what an acquisition has stored, under the token that is given for it. -/
theorem holdStored_titling {kept : Titles} {stored : Lease} (free : office.IsFree)
    (won : titles (.won stored)) (keeps : ∀ title, kept title → titles title) :
    (holdStored stored).Follows (titling office) (fun after _ => after = kept) titles := by
  intro token _
  have gives : Gives office titles .token token (.granted stored token) := ⟨stored, won, rfl⟩
  refine ⟨_, ⟨free.entitled _ _, gives.earns⟩, ?_⟩
  refine (query_titling .clock trivial).bind fun now => ?_
  refine step_titling (fun title mem => .inl (keeps title mem))
    (fun _ => changes_hold free (.inr rfl) now) fun _ _ => ?_
  exact (record_titling _).bind fun _ => record_titling _

theorem acquire_titling (lease : Lease) : (acquire lease).Returns (titling .takes) titles := by
  refine look_titling fun state _ => (Script.follows_bind ..).2 fun reply heard => ?_
  have entitled (query : Query) : Entitled .takes titles query := Office.isFree_takes.entitled titles query
  cases reply with
  | error error => exact ⟨titles, ⟨entitled _, earns_nothing ..⟩, rfl⟩
  | ok outcome =>
    cases outcome with
    | updated stored =>
      have gives : Gives .takes titles (.store (.update (lease.transferredTo (some state.workerId))
          lease.counter)) (.ok (.updated stored)) (.won stored) := rfl
      refine ⟨_, ⟨entitled _, gives.earns⟩, ?_⟩
      refine (Script.follows_bind ..).2
        ((holdStored_titling Office.isFree_takes (.inr rfl) fun _ => .inl).imp ?_)
      exact fun after _ same => same
    | versionConflict => exact ⟨titles, ⟨entitled _, earns_nothing ..⟩, rfl⟩
    | notFound => exact ⟨titles, ⟨entitled _, earns_nothing ..⟩, rfl⟩

theorem acquireAll_titling (leases : List Lease) :
    (acquireAll leases).Returns (titling .takes) titles := by
  induction leases with
  | nil => rfl
  | cons lease rest ih =>
    refine (acquire_titling lease).bind fun result => ?_
    cases result with
    | ok _ => exact ih
    | error error => rfl

theorem claim_titling (capacity : Nat) (leases : List Lease) :
    (claim capacity leases).Returns (titling .takes) titles := by
  induction leases generalizing capacity with
  | nil => cases capacity <;> rfl
  | cons lease rest ih =>
    cases capacity with
    | zero => rfl
    | succ capacity =>
      refine (acquire_titling lease).bind fun result => ?_
      cases result with
      | error error => rfl
      | ok won => cases won <;> exact ih _

theorem claimShare_titling (free expired : List Lease) (capacity : Nat) :
    (claimShare free expired capacity).Returns (titling .takes) titles := by
  refine (claim_titling capacity free).bind fun result => ?_
  cases result with
  | error error => rfl
  | ok left =>
    refine look_titling fun state _ => (claim_titling _ expired).bind fun result => ?_
    cases result <;> rfl

/-! ## What needs no title -/

theorem leads_titling (live : SortedSet String) :
    (leads live : CoordinatorScript Bool).Returns (titling office) titles := by
  refine step_titling (fun _ => id) (fun _ => .of_same_held rfl) fun found _ => ?_
  dsimp only
  split
  · exact (record_titling _).bind fun _ => rfl
  · rfl

theorem isLeader_titling : isLeader.Returns (titling office) titles :=
  look_titling fun state _ => leads_titling state.live

section

variable (free : office.IsFree)

include free

theorem query_free (question : Query) :
    (Script.query question : CoordinatorScript _).Returns (titling office) titles :=
  query_titling question (free.entitled _ _)

theorem store_free (call : StoreCall) : (store call).Returns (titling office) titles := by
  refine look_titling fun state _ => state.retry.store_follows stopping ?_ ?_ ?_
  · exact fun answer _ => ⟨titles, ⟨free.entitled _ _, earns_nothing ..⟩, rfl⟩
  · exact fun error _ => ⟨⟨free.entitled _ _, earns_nothing ..⟩, fun _ => rfl⟩
  · exact fun low high reply => ⟨trivial, earns_nothing ..⟩

theorem findLiving_titling (leases : List Lease) : (findLiving leases).Returns (titling office) titles := by
  refine look_titling fun state _ => (query_free free .clock).bind fun now => ?_
  refine (query_free free .summaries).bind fun summaries => (query_free free .epoch).bind fun epoch => ?_
  refine Script.Returns.bind (change_titling fun _ => ?_) fun _ => ?_
  · rfl
  · rfl

theorem scan_titling (leases : List Lease) : (scan leases).Returns (titling office) titles :=
  (query_free free .clock).bind fun _ => change_titling fun _ => rfl

theorem summariesToUse_titling : summariesToUse.Returns (titling office) titles := by
  refine look_titling fun state _ => ?_
  split
  · rfl
  · refine state.retry.run_follows stopping ?_ fun _ _ _ => ⟨trivial, earns_nothing ..⟩
    exact (query_free free .summaries).bind fun _ => ⟨rfl, fun _ _ => ⟨rfl, fun _ => rfl⟩⟩

theorem executeMoves_titling (moves : List LeaseMove) :
    (executeMoves moves : CoordinatorScript (List LeaseMove)).Returns (titling office) titles := by
  induction moves with
  | nil => rfl
  | cons move rest ih =>
    refine (query_free free (.store move.write)).bind fun reply => ?_
    match reply with
    | .error error => exact ih
    | .ok (.updated stored) => exact (record_titling _).bind fun _ => ih.bind fun _ => rfl
    | .ok .versionConflict => exact (record_titling _).bind fun _ => ih
    | .ok .notFound => exact (record_titling _).bind fun _ => ih

theorem runPass_titling (engine : AssignmentEngine) (seen : Observed) :
    (engine.runPass seen : CoordinatorScript _).Returns (titling office) titles := by
  refine (record_titling _).bind fun _ => ?_
  dsimp only
  split
  · rfl
  · exact (executeMoves_titling free _).bind fun _ => (record_titling _).bind fun _ => rfl

theorem rebalance_titling : rebalance.Returns (titling office) titles := by
  refine look_titling fun state _ => (findLiving_titling free _).bind fun live => ?_
  refine (leads_titling live).bind fun leading => ?_
  split
  · rfl
  · refine (store_free free .list).bind fun result => ?_
    cases result with
    | error error => rfl
    | ok leases =>
      refine (summariesToUse_titling free).bind fun summaries => ?_
      cases summaries with
      | error error => rfl
      | ok summaries =>
        refine Script.Returns.bind ?_ fun _ => rfl
        refine step_titling (fun _ => id) (fun _ => .of_same_held rfl) fun found _ => ?_
        refine (query_free free .epoch).bind fun now => (runPass_titling free _ _).bind fun result => ?_
        refine Script.Returns.bind (change_titling fun _ => ?_) fun _ => ?_
        · rfl
        · rfl

theorem releaseAll_titling : releaseAll.Returns (titling office) titles := by
  refine step_titling (fun _ => id) (fun state => ?_) fun state _ => ?_
  · exact .of_fewer free fun found => by simp [dropAll] at found
  · obtain ⟨children, started⟩ : ∃ children, (titling office).StartsAll titles
        (state.held.values.map .release) children titles := by
      refine startsAll_titling fun job mem => ?_
      obtain ⟨held, _, rfl⟩ := List.mem_map.1 mem
      intro other same
      cases same
    exact ⟨children, titles, started, record_titling _⟩

theorem releaseOne_titling (held : HeldLease) : (releaseOne held).Returns (titling office) titles :=
  (query_free free (.store (.update (released held.lease) held.lease.counter))).bind fun _ => rfl

end

/-- The renewals of what is held go by the copies that are held. -/
theorem renew_titling : renew.Safe (titling office) := by
  refine fun titles => step_copying (fun _ => .of_same_held rfl) fun state _ => ?_
  obtain ⟨children, started⟩ : ∃ children, (titling office).StartsAll (state.TitlesWith titles)
      (state.held.values.map .renewal) children (state.TitlesWith titles) := by
    refine startsAll_titling fun job mem => ?_
    obtain ⟨held, inMap, rfl⟩ := List.mem_map.1 mem
    obtain ⟨leaseKey, found⟩ := SortedMap.mem_values.1 inMap
    rintro other same
    cases same
    exact .inr ⟨leaseKey, held, found, rfl⟩
  refine ⟨children, _, started, ?_⟩
  exact (look_titling fun _ _ => record_titling _).imp fun _ _ _ => trivial

/-! ## Whole cycles -/

theorem take_titling : take.Returns (titling .takes) titles := by
  refine (store_free Office.isFree_takes .list).bind fun result => ?_
  cases result with
  | error error => rfl
  | ok leases =>
    refine (scan_titling Office.isFree_takes leases).bind fun _ => ?_
    refine (findLiving_titling Office.isFree_takes leases).bind fun live => look_titling fun before _ => ?_
    refine (acquireAll_titling _).bind fun result => ?_
    cases result with
    | error error => rfl
    | ok _ =>
      refine look_titling fun state _ => ?_
      dsimp only
      split
      · rfl
      · exact (query_titling .clock trivial).bind fun now => claimShare_titling _ _ _

theorem adopt_titling : adopt.Returns (titling .takes) titles := by
  refine (store_free Office.isFree_takes .list).bind fun result => ?_
  cases result with
  | error error => rfl
  | ok leases =>
    refine (scan_titling Office.isFree_takes leases).bind fun _ => look_titling fun state _ => ?_
    refine (acquireAll_titling _).bind fun result => ?_
    cases result with
    | error error => rfl
    | ok _ =>
      refine look_titling fun state _ => ?_
      split
      · exact (releaseAll_titling Office.isFree_takes).bind fun _ => rfl
      · rfl

theorem start_titling : start.Returns (titling office) titles := by
  refine step_titling (fun _ => id) (fun state => ?_) fun found _ => ?_
  · unfold markStarted
    split <;> exact .of_same_held rfl
  · split
    · refine spawnAll_titling fun job mem held same => ?_
      subst same
      simp [loops] at mem
    · rfl

theorem stop_titling (free : office.IsFree) : stop.Returns (titling office) titles := by
  refine step_titling (fun _ => id) (fun _ => .of_same_held rfl) fun found _ => ?_
  split
  · rfl
  · exact step_titling (fun _ => id) (fun _ => .of_same_held rfl) fun _ _ => releaseAll_titling free

/-- A job that rests on titles goes by them, and what follows it rests on what is left. -/
theorem perform_titling {job : CoordinatorJob} (rests : job.Rests titles) :
    (perform job).Follows (titling job.office)
      (fun after next => ∀ job : CoordinatorJob, next = some job → job.Rests after) titles := by
  have ended {office : Office} (titles : Titles) : endLoop.Follows (titling office)
      (fun after next => ∀ job : CoordinatorJob, next = some job → job.Rests after) titles := by
    refine Script.Returns.bind (change_titling fun _ => ?_) fun _ _ same => ?_
    · rfl
    · cases same
  have goesTo {office : Office} (job : CoordinatorJob) (isLoop : ∀ held, job ≠ .renewal held)
      (titles : Titles) : (Script.done (some job) : CoordinatorScript _).Follows (titling office)
        (fun after next => ∀ job : CoordinatorJob, next = some job → job.Rests after) titles := by
    rintro next same held isRenewal
    cases same
    exact absurd isRenewal (isLoop held)
  have cycled {office : Office} {interval : Coordinator → Nat} {titles : Titles}
      {next : Bool → CoordinatorScript _} (rest : ∀ goesOn, (next goesOn).Follows (titling office)
        (fun after next => ∀ job : CoordinatorJob, next = some job → job.Rests after) titles) :
      ((nextCycle interval).bind next).Follows (titling office)
        (fun after next => ∀ job : CoordinatorJob, next = some job → job.Rests after) titles :=
    Script.Returns.bind (look_titling fun state _ complete => rfl) rest
  cases job with
  | renewal held =>
    refine (Script.follows_bind ..).2 ((renewOne_titling (rests rfl)).imp fun _ _ _ _ same => ?_)
    cases same
  | release held =>
    refine (releaseOne_titling Office.isFree_other held).bind fun _ _ same => ?_
    cases same
  | renewalLoop =>
    refine cycled fun goesOn => ?_
    cases goesOn with
    | false => exact ended titles
    | true => exact renew_titling.then (fun _ after => goesTo .renewalLoop nofun after) titles
  | takingLoop =>
    refine take_titling.bind fun _ => cycled fun goesOn => ?_
    cases goesOn with
    | false => exact ended titles
    | true => exact goesTo .takingLoop nofun titles
  | rebalanceLoop =>
    refine cycled fun goesOn => ?_
    cases goesOn with
    | false => exact ended titles
    | true =>
      exact (rebalance_titling Office.isFree_other).bind fun _ => goesTo .rebalanceLoop nofun titles

end Coordinator

end LeaseFleet
