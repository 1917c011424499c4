import LeaseFleet.Proofs.Script.Journals
import LeaseFleet.Sync.Streams

/-!
# The retirement of streams

A pass that gets so far reads the list of the streams to consume, then the clock and the strategy,
and then deletes the leases of the stale streams whose waiting time is over. Its journal shows where
it stands. What is stale was missing from the list of the pass that marked it and of every later pass
that got to read the list (`MissingSince`); this is kept by every pass (`runPass_accounts`), and so a
deletion concerns such a stream, whatever strategy was in force in between.
-/

namespace LeaseFleet

variable {σ Job : Type}

/-! ## What a journal of a pass tells -/

/-- The list of the streams to consume that was read last. -/
def lastTracked : Journal σ → Option (List StreamConfig)
  | [] => none
  | .asked .trackedStreams configs :: _ => some configs
  | _ :: earlier => lastTracked earlier

/-- Whether a list of streams to consume lacks a stream. -/
def Lacks (configs : List StreamConfig) (stream : StreamIdentifier) : Prop :=
  stream ∉ configs.map (·.stream)

/-- A strategy can make a missing stream stale. -/
def DeletionStrategy.Marks (stream : StreamIdentifier) : DeletionStrategy → Prop
  | keep => False
  | afterAbsence _ => True
  | named streams wait => stream ∈ (named streams wait).namedStreams

/-- The pass has come to its strategy, at an instant, and before that it had read a list that lacks
the stream; the strategy then marks the stream. -/
def MarkedBy (strategy : DeletionStrategy) (stream : StreamIdentifier) (since : Nat)
    (pass : Journal σ) : Prop :=
  ∃ later earlier configs,
    pass = later ++ .asked .deletionStrategy strategy :: .asked .clock since :: earlier ∧
      lastTracked earlier = some configs ∧ Lacks configs stream ∧ strategy.Marks stream

/-- Of the passes, the last one first, one has marked the stream at the instant, and each one since
that read the list has read one without the stream. -/
def MissingSince (stream : StreamIdentifier) (since : Nat) (passes : List (Journal σ)) : Prop :=
  ∃ newer marking older strategy, passes = newer ++ marking :: older ∧
    MarkedBy strategy stream since marking ∧
      ∀ pass ∈ marking :: newer, ∀ configs, lastTracked pass = some configs → Lacks configs stream

/-- An act that neither reads the list of streams nor asks for the strategy. -/
def Act.Quiet : Act σ → Prop
  | asked .trackedStreams _ | asked .deletionStrategy _ => False
  | _ => True

/-- An act of deleting leases. -/
def Act.Erases : Act σ → Prop
  | asked (.store (.delete _)) _ | asked (.draw _ _) _ => True
  | _ => False

theorem Act.Erases.quiet {act : Act σ} (erases : act.Erases) : act.Quiet := by
  unfold Act.Erases at erases
  split at erases
  · trivial
  · trivial
  · exact erases.elim

theorem Act.Attempts.quiet {call : StoreCall} {act : Act σ} (attempts : act.Attempts call) :
    act.Quiet :=
  attempts.elim (fun _ => trivial) fun _ _ _ => trivial

theorem Act.Attempts.erases {leaseKey : String} {act : Act σ}
    (attempts : act.Attempts (.delete leaseKey)) : act.Erases :=
  attempts.elim (fun _ => trivial) fun _ _ _ => trivial

theorem lastTracked_cons {act : Act σ} (quiet : act.Quiet) (past : Journal σ) :
    lastTracked (act :: past) = lastTracked past := by
  cases act with
  | changed => rfl
  | asked query reply =>
    cases query with
    | trackedStreams => exact quiet.elim
    | _ => rfl

/-- Quiet acts do not change what was read last. -/
theorem lastTracked_grows {past after : Journal σ} (grows : past.Grows Act.Quiet after) :
    lastTracked after = lastTracked past := by
  obtain ⟨new, rfl, quiet⟩ := grows
  induction new with
  | nil => rfl
  | cons act new ih =>
    obtain ⟨first, others⟩ := List.forall_mem_cons.1 quiet
    exact (lastTracked_cons first _).trans (ih others)

theorem MarkedBy.grows {strategy : DeletionStrategy} {stream : StreamIdentifier} {since : Nat}
    {past after : Journal σ} (marked : MarkedBy strategy stream since past)
    (grows : past.Grows Act.Quiet after) : MarkedBy strategy stream since after := by
  obtain ⟨later, earlier, configs, rfl, rest⟩ := marked
  obtain ⟨new, rfl, _⟩ := grows
  exact ⟨new ++ later, earlier, configs, by simp, rest⟩

/-- While a pass goes on quietly, what is missing stays so. -/
theorem MissingSince.grows {stream : StreamIdentifier} {since : Nat} {past after : Journal σ}
    {passes : List (Journal σ)} (missing : MissingSince stream since (past :: passes))
    (grows : past.Grows Act.Quiet after) : MissingSince stream since (after :: passes) := by
  obtain ⟨newer, marking, older, strategy, same, marked, since⟩ := missing
  cases newer with
  | nil =>
    obtain ⟨rfl, rfl⟩ := List.cons.inj same
    refine ⟨[], after, passes, strategy, rfl, marked.grows grows, fun pass mem configs read => ?_⟩
    obtain rfl := List.mem_singleton.1 mem
    exact since past List.mem_cons_self configs (lastTracked_grows grows ▸ read)
  | cons newest newer =>
    obtain ⟨rfl, rfl⟩ := List.cons.inj same
    refine ⟨after :: newer, marking, older, strategy, rfl, marked, fun pass mem configs read => ?_⟩
    rcases List.mem_cons.1 mem with rfl | mem
    · exact since pass List.mem_cons_self configs read
    · rcases List.mem_cons.1 mem with rfl | mem
      · exact since past (by simp) configs (lastTracked_grows grows ▸ read)
      · exact since pass (by simp [mem]) configs read

/-- A further pass that has read no list, or one without the stream, leaves it missing. -/
theorem MissingSince.cons {stream : StreamIdentifier} {since : Nat} {pass : Journal σ}
    {passes : List (Journal σ)} (missing : MissingSince stream since passes)
    (read : ∀ configs, lastTracked pass = some configs → Lacks configs stream) :
    MissingSince stream since (pass :: passes) := by
  obtain ⟨newer, marking, older, strategy, rfl, marked, since⟩ := missing
  refine ⟨pass :: newer, marking, older, strategy, rfl, marked, fun other mem => ?_⟩
  rcases List.mem_cons.1 mem with rfl | mem
  · exact since other List.mem_cons_self
  · rcases List.mem_cons.1 mem with rfl | mem
    · exact read
    · exact since other (List.mem_cons_of_mem _ mem)

/-! ## Rules of a pass -/

/-- The pass has come to its strategy, whose waiting time is over for a stream: the stream lacks in
the list of the pass and has been missing since an instant that lies so far back. -/
def Retires (passes : List (Journal σ)) (stream : StreamIdentifier) (past : Journal σ) : Prop :=
  ∃ later strategy now earlier configs wait since,
    past = later ++ .asked .deletionStrategy strategy :: .asked .clock now :: earlier ∧
      lastTracked earlier = some configs ∧ Lacks configs stream ∧
        strategy.waitPeriod? = some wait ∧ wait ≤ now - since ∧
          MissingSince stream since (past :: passes)

/-- Since the last listing of the leases there were only deletions, and in that listing a lease of
the stream has the key. -/
def Lists (stream : StreamIdentifier) (leaseKey : String) (past : Journal σ) : Prop :=
  ∃ leases earlier, Journal.Grows Act.Erases (.asked (.store .list) (.ok leases) :: earlier) past ∧
    ∃ lease ∈ leases, lease.leaseKey = leaseKey ∧ lease.stream = some stream.serialize

/-- The pass has not come to its strategy yet. -/
def Early (past : Journal σ) : Prop := ∀ strategy, .asked .deletionStrategy strategy ∉ past

/-- A pass asks for its strategy once, and then deletes leases of streams that retire, from a listing
of its own. -/
def Retirement (passes : List (Journal σ)) (past : Journal σ) : Act σ → Prop
  | .asked .deletionStrategy _ => Early past
  | .asked (.store (.delete leaseKey)) _ =>
    ¬Early past → ∃ stream, Retires passes stream past ∧ Lists stream leaseKey past
  | _ => True

theorem Retires.grows {passes : List (Journal σ)} {stream : StreamIdentifier} {past after : Journal σ}
    (retires : Retires passes stream past) (grows : past.Grows Act.Quiet after) :
    Retires passes stream after := by
  obtain ⟨later, strategy, now, earlier, configs, wait, since, rfl, read, lacks, waits, elapsed, missing⟩ :=
    retires
  have goesOn := missing.grows grows
  obtain ⟨new, rfl, _⟩ := grows
  exact ⟨new ++ later, strategy, now, earlier, configs, wait, since, by simp, read, lacks, waits, elapsed,
    goesOn⟩

/-- Before it has come to its strategy, a pass may do anything. -/
theorem retirement_of_early {passes : List (Journal σ)} {past : Journal σ} (early : Early past)
    (act : Act σ) : Retirement passes past act := by
  unfold Retirement
  split
  · exact early
  · exact fun notEarly => (notEarly early).elim
  · trivial

theorem Early.grows {past after : Journal σ} (early : Early past) (grows : past.Grows Act.Quiet after) :
    Early after := by
  obtain ⟨new, rfl, quiet⟩ := grows
  intro strategy mem
  rcases List.mem_append.1 mem with mem | mem
  · exact quiet _ mem
  · exact early strategy mem

theorem Early.cons {past : Journal σ} {act : Act σ} (early : Early past)
    (other : ∀ strategy, act ≠ .asked .deletionStrategy strategy) : Early (act :: past) := by
  intro strategy mem
  rcases List.mem_cons.1 mem with same | mem
  · exact other strategy same.symm
  · exact early strategy mem

/-- There is one place at most where a pass asks for its strategy. -/
theorem strategy_unique {past : Journal σ} {strategy other : DeletionStrategy}
    {earlier others : Journal σ}
    (once : ∀ {strategy earlier}, .asked .deletionStrategy strategy :: earlier <:+ past → Early earlier)
    (here : .asked .deletionStrategy strategy :: earlier <:+ past)
    (there : .asked .deletionStrategy other :: others <:+ past) :
    strategy = other ∧ earlier = others := by
  have notWithin {strategy other : DeletionStrategy} {earlier others : Journal σ}
      (there : .asked .deletionStrategy other :: others <:+ past)
      (within : .asked .deletionStrategy strategy :: earlier <:+ .asked .deletionStrategy other :: others) :
      strategy = other ∧ earlier = others := by
    rcases List.suffix_cons_iff.1 within with same | within
    · simpa using same
    · exact (once there strategy (within.subset List.mem_cons_self)).elim
  rcases List.suffix_or_suffix_of_suffix here there with within | within
  · exact notWithin there within
  · obtain ⟨rfl, rfl⟩ := notWithin here within
    exact ⟨rfl, rfl⟩

namespace Synchronizer

variable {passes : List (Journal σ)} {past : Journal σ}

/-- Every stale stream has been missing since the instant that is noted for it. -/
def Accounts (passes : List (Journal σ)) (synchronizer : Synchronizer) : Prop :=
  ∀ ⦃stream since⦄, synchronizer.stale.get? stream = some since → MissingSince stream since passes

/-- What a step of a pass leaves as it was. -/
structure SameNotes (before after : Synchronizer) : Prop where
  stale : after.stale = before.stale
  sync : after.sync = before.sync

theorem SameNotes.refl (synchronizer : Synchronizer) : SameNotes synchronizer synchronizer := ⟨rfl, rfl⟩

theorem SameNotes.trans {before between after : Synchronizer} (first : SameNotes before between)
    (second : SameNotes between after) : SameNotes before after :=
  ⟨second.stale.trans first.stale, second.sync.trans first.sync⟩

theorem activate_sameNotes (synchronizer : Synchronizer) (config : StreamConfig) :
    SameNotes synchronizer (synchronizer.activate config) := by
  unfold activate
  split
  · exact ⟨rfl, rfl⟩
  · exact ⟨rfl, rfl⟩

theorem adoptOrphans_sameNotes (synchronizer : Synchronizer)
    (wanted : SortedMap StreamIdentifier StreamConfig) (position : InitialPosition)
    (leases : List Lease) : SameNotes synchronizer (synchronizer.adoptOrphans wanted position leases) := by
  have along (streams : List StreamIdentifier) (between : Synchronizer) :
      SameNotes between (streams.foldl
        (fun synchronizer stream => synchronizer.activate (.ofStream stream position)) between) := by
    induction streams generalizing between with
    | nil => exact .refl between
    | cons stream rest ih => exact (activate_sameNotes between _).trans (ih _)
  have taken : SameNotes synchronizer { synchronizer with reconciled := true } := ⟨rfl, rfl⟩
  exact taken.trans (along _ _)

theorem contains_streamsToConsume {synchronizer : Synchronizer} (multi : synchronizer.sync.multi = true)
    {configs : List StreamConfig} {stream : StreamIdentifier} :
    (synchronizer.streamsToConsume configs).contains stream = true ↔ ¬Lacks configs stream := by
  simp [streamsToConsume, multi, SortedMap.contains_ofList, Lacks, Function.comp_def]

/-! ### What a strategy does -/

/-- Marking streams keeps earlier marks. -/
theorem get?_markStale {synchronizer : Synchronizer} {streams : List StreamIdentifier} {now : Nat}
    {stream : StreamIdentifier} {since : Nat} :
    (synchronizer.markStale streams now).stale.get? stream = some since ↔
      synchronizer.stale.get? stream = some since ∨
        synchronizer.stale.get? stream = none ∧ stream ∈ streams ∧ since = now := by
  unfold markStale
  dsimp only
  generalize synchronizer.stale = stale
  induction streams generalizing stale with
  | nil => simp
  | cons head rest ih =>
    rw [List.foldl_cons, ih, SortedMap.insertIfNew]
    by_cases known : stale.contains head = true
    · rw [if_pos known]
      obtain ⟨value, found⟩ := Option.isSome_iff_exists.1 known
      by_cases same : stream = head
      · subst same
        simp [found]
      · simp [same]
    · rw [if_neg known]
      have new : stale.get? head = none := by simpa [SortedMap.contains] using known
      by_cases same : stream = head
      · subst same
        simp [new, eq_comm]
      · simp [same, SortedMap.get?_insert_of_ne stale same]

/-- The streams that a strategy marks when they are missing. -/
def marks (synchronizer : Synchronizer) (strategy : DeletionStrategy) : List StreamIdentifier :=
  match strategy with
  | .keep => []
  | .afterAbsence _ => synchronizer.streams.keys
  | .named _ _ => strategy.namedStreams

theorem marks_of_mem {synchronizer : Synchronizer} {strategy : DeletionStrategy}
    {stream : StreamIdentifier} (mem : stream ∈ synchronizer.marks strategy) :
    strategy.Marks stream := by
  cases strategy with
  | keep => exact absurd mem List.not_mem_nil
  | afterAbsence wait => trivial
  | named streams wait => exact mem

/-- What is stale after a strategy was applied: of the streams that are not to be consumed, those
that were stale before, and those that the strategy marks. -/
theorem stale_applyStrategy {synchronizer : Synchronizer}
    {wanted : SortedMap StreamIdentifier StreamConfig} {strategy : DeletionStrategy} {now : Nat}
    {stream : StreamIdentifier} {since : Nat} :
    (synchronizer.applyStrategy wanted strategy now).2.stale.get? stream = some since ↔
      wanted.contains stream = false ∧ (synchronizer.stale.get? stream = some since ∨
        synchronizer.stale.get? stream = none ∧ stream ∈ synchronizer.marks strategy ∧ since = now) := by
  cases strategy with
  | keep => simp [applyStrategy, revive, forget, marks, SortedMap.get?_filter, Option.filter_eq_some_iff,
      and_comm]
  | afterAbsence wait =>
    simp only [applyStrategy, revive, SortedMap.get?_filter, Option.filter_eq_some_iff, get?_markStale,
      absentStreams, List.mem_filter, marks]
    grind
  | named streams wait =>
    simp only [applyStrategy, revive, SortedMap.get?_filter, Option.filter_eq_some_iff, get?_markStale,
      List.mem_filter, marks]
    grind

theorem applyStrategy_sync (synchronizer : Synchronizer)
    (wanted : SortedMap StreamIdentifier StreamConfig) (strategy : DeletionStrategy) (now : Nat) :
    (synchronizer.applyStrategy wanted strategy now).2.sync = synchronizer.sync := by
  cases strategy <;> rfl

/-- The streams that are due are the stale ones that have waited long enough. -/
theorem mem_expiredStreams {synchronizer : Synchronizer} {strategy : DeletionStrategy} {now : Nat}
    {stream : StreamIdentifier} :
    stream ∈ synchronizer.expiredStreams strategy now ↔
      ∃ wait since, strategy.waitPeriod? = some wait ∧
        synchronizer.stale.get? stream = some since ∧ wait ≤ now - since := by
  unfold expiredStreams
  cases waits : strategy.waitPeriod? with
  | none => simp
  | some wait => simp [SortedMap.get?_eq_some_iff]

/-- Under a strategy that names streams, a missing stream is due when it is stale for long enough,
named or not; one that becomes stale only now is due when it is named and nothing is to be waited
for. -/
theorem mem_expiredStreams_named {synchronizer : Synchronizer}
    {wanted : SortedMap StreamIdentifier StreamConfig} {names : Option (List StreamIdentifier)}
    {wait now : Nat} {stream : StreamIdentifier} :
    stream ∈ (synchronizer.applyStrategy wanted (.named names wait) now).2.expiredStreams
        (.named names wait) now ↔
      wanted.contains stream = false ∧
        ((∃ since, synchronizer.stale.get? stream = some since ∧ wait ≤ now - since) ∨
          synchronizer.stale.get? stream = none ∧
            stream ∈ (DeletionStrategy.named names wait).namedStreams ∧ wait = 0) := by
  rw [mem_expiredStreams]
  constructor
  · rintro ⟨waited, since, same, found, elapsed⟩
    obtain rfl := Option.some.inj same
    obtain ⟨missing, earlier | ⟨new, marked, rfl⟩⟩ := stale_applyStrategy.1 found
    · exact ⟨missing, .inl ⟨since, earlier, elapsed⟩⟩
    · exact ⟨missing, .inr ⟨new, marked, by omega⟩⟩
  · rintro ⟨missing, ⟨since, earlier, elapsed⟩ | ⟨new, marked, rfl⟩⟩
    · exact ⟨wait, since, rfl, stale_applyStrategy.2 ⟨missing, .inl earlier⟩, elapsed⟩
    · exact ⟨0, now, rfl, stale_applyStrategy.2 ⟨missing, .inr ⟨new, marked, rfl⟩⟩, Nat.zero_le _⟩

/-- Once a strategy was applied, what is stale is accounted for by this pass and those before. -/
theorem Accounts.applyStrategy {synchronizer : Synchronizer} {configs : List StreamConfig}
    (accounts : synchronizer.Accounts passes) (multi : synchronizer.sync.multi = true)
    (read : lastTracked past = some configs) (strategy : DeletionStrategy) (now : Nat) :
    (synchronizer.applyStrategy (synchronizer.streamsToConsume configs) strategy now).2.Accounts
      ((.asked .deletionStrategy strategy :: .asked .clock now :: past) :: passes) := by
  intro stream since found
  obtain ⟨notWanted, stale⟩ := stale_applyStrategy.1 found
  have lacks : Lacks configs stream := by
    by_cases lacks : Lacks configs stream
    · exact lacks
    · rw [(contains_streamsToConsume multi).2 lacks] at notWanted
      cases notWanted
  have last : lastTracked (.asked .deletionStrategy strategy :: .asked .clock now :: past) =
      some configs := read
  have onlyThese : ∀ others,
      lastTracked (.asked .deletionStrategy strategy :: .asked .clock now :: past) = some others →
        Lacks others stream := by
    intro others same
    obtain rfl := Option.some.inj (last.symm.trans same)
    exact lacks
  rcases stale with earlier | ⟨_, marked, rfl⟩
  · exact (accounts earlier).cons onlyThese
  · refine ⟨[], _, passes, strategy, rfl, ?_, fun pass mem => ?_⟩
    · exact ⟨[], past, configs, rfl, read, lacks, marks_of_mem marked⟩
    · obtain rfl := List.mem_singleton.1 mem
      exact onlyThese

/-- Of the streams that are due, each retires. -/
theorem retires_of_expired {synchronizer : Synchronizer} {configs : List StreamConfig}
    (accounts : synchronizer.Accounts passes) (multi : synchronizer.sync.multi = true)
    (read : lastTracked past = some configs) {strategy : DeletionStrategy} {now : Nat}
    {stream : StreamIdentifier}
    (due : stream ∈ (synchronizer.applyStrategy (synchronizer.streamsToConsume configs) strategy
      now).2.expiredStreams strategy now) :
    Retires passes stream (.asked .deletionStrategy strategy :: .asked .clock now :: past) := by
  obtain ⟨wait, since, waits, found, elapsed⟩ := mem_expiredStreams.1 due
  have missing := accounts.applyStrategy multi read strategy now found
  obtain ⟨notWanted, _⟩ := stale_applyStrategy.1 found
  refine ⟨[], strategy, now, past, configs, wait, since, rfl, read, ?_, waits, elapsed, missing⟩
  intro listed
  rw [(contains_streamsToConsume multi).2 (not_not_intro listed)] at notWanted
  cases notWanted

end Synchronizer

end LeaseFleet
