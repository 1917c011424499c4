import LeaseFleet.Proofs.Fleet.Fencing
import LeaseFleet.Proofs.Interleaving.StepEffects
import LeaseFleet.Proofs.Consumer.ServedShards
import LeaseFleet.Proofs.Worker.WorkBesideConsumers

/-!
# How workers age

Whatever a worker does but shutting down, it stays in its phase or enters a later one and announces it,
and is not told to stop (`Worker.Ages`). A call that shuts it down first tells it to stop and enters the
phase for that in one indivisible step, and may then stop the coordinator. This is a discipline whose
marks say which calls have told their worker to stop (`ageingDiscipline`). So the announced phases rise
from the first one to the present one, and a worker that was told to stop is past the phase in which it
runs, at every instant of a run (`inOrder_of_run`), and none of this is ever taken back (`older_of_run`).
-/

namespace LeaseFleet

namespace Worker

/-- The worker has stayed in its phase, or has entered a later one and announced it. -/
structure Rises (found now : Worker) : Prop where
  settings : now.settings = found.settings
  phase : now.phase = found.phase ∧ now.announced = found.announced ∨
    found.phase.rank < now.phase.rank ∧ now.announced = found.announced ++ [now.phase]

/-- Nor was it told to stop, nor its coordinator. -/
structure Ages (found now : Worker) : Prop extends Rises found now where
  stopping : now.stopping = found.stopping
  coordinator : now.coordinator.stopping = found.coordinator.stopping

/-- A worker that has stayed in its phase. -/
theorem ages_of_same {found now : Worker} (settings : now.settings = found.settings)
    (phase : now.phase = found.phase) (announced : now.announced = found.announced)
    (stopping : now.stopping = found.stopping)
    (coordinator : now.coordinator.stopping = found.coordinator.stopping) : found.Ages now :=
  ⟨⟨settings, .inl ⟨phase, announced⟩⟩, stopping, coordinator⟩

theorem rises_refl (worker : Worker) : worker.Rises worker := ⟨rfl, .inl ⟨rfl, rfl⟩⟩

theorem ages_enter (worker : Worker) (phase : WorkerPhase) : worker.Ages (worker.enter phase) := by
  unfold enter
  split
  · rename_i later
    exact ⟨⟨rfl, .inr ⟨later, rfl⟩⟩, rfl, rfl⟩
  · exact ages_of_same rfl rfl rfl rfl rfl

theorem rank_le_enter (worker : Worker) (phase : WorkerPhase) : phase.rank ≤ (worker.enter phase).phase.rank := by
  unfold enter
  split
  · exact Nat.le_refl _
  · rename_i notLater
    exact Nat.le_of_not_lt notLater

/-! ## The changes of consumers -/

/-- Nothing but consumers and rejections has changed. -/
abbrev SameLife (found now : Worker) : Prop :=
  now = { found with crew := now.crew, consumers := now.consumers, rejections := now.rejections }

theorem SameLife.trans {first found now : Worker} (earlier : first.SameLife found) (later : found.SameLife now) :
    first.SameLife now := by
  rw [later, earlier]

theorem SameLife.ages {found now : Worker} (same : found.SameLife now) : found.Ages now := by
  rw [same]
  exact ages_of_same rfl rfl rfl rfl rfl

theorem sameLife_engaged (worker : Worker) (shard : AssignedShard) : worker.SameLife (worker.engaged shard) := by
  unfold engaged engage
  cases worker.consumers.get? shard.key with
  | some number => rfl
  | none => cases worker.crew.start shard <;> rfl

theorem sameLife_serveShard (table : LeaseTable) (worker : Worker) (shard : AssignedShard) :
    worker.SameLife (worker.serveShard table shard) := by
  rcases serveShard_cases table worker shard with ⟨_, same⟩ | same | ⟨_, _, _, _, _, same⟩ | ⟨rejection, same⟩
  · rw [same]
    unfold finishShard
    split <;> rfl
  · rw [same]
  · rw [same]
  · rw [same]
    rfl

theorem sameLife_serve (worker : Worker) : worker.SameLife worker.serve := by
  suffices served : ∀ (table : LeaseTable) (shards : List AssignedShard) (now : Worker), worker.SameLife now →
      worker.SameLife (shards.foldl (serveShard table) now) from (served _ _ worker rfl).trans rfl
  intro table shards
  induction shards with
  | nil => exact fun now same => same
  | cons shard rest ih => exact fun now same => ih _ (same.trans (sameLife_serveShard table now shard))

theorem sameLife_finishConsumer (worker : Worker) (number : Nat) :
    worker.SameLife (worker.finishConsumer number) := by
  unfold finishConsumer
  split
  · dsimp only
    split <;> rfl
  · rfl

/-! ## Beginning to shut down -/

section

variable (worker : Worker)

theorem rises_beginShutdown : worker.Rises worker.beginShutdown := by
  unfold beginShutdown
  split
  · exact rises_refl worker
  · obtain ⟨settings, phase⟩ := (ages_enter { worker with stopping := true } .shuttingDown).toRises
    exact ⟨settings, phase⟩

@[simp] theorem stopping_beginShutdown : worker.beginShutdown.stopping = true := by
  unfold beginShutdown
  split
  · rename_i stopping
    exact stopping
  · exact (ages_enter { worker with stopping := true } .shuttingDown).stopping

theorem rank_le_beginShutdown (goesOn : worker.stopping = false) :
    WorkerPhase.shuttingDown.rank ≤ worker.beginShutdown.phase.rank := by
  unfold beginShutdown
  rw [if_neg (by simp [goesOn])]
  exact rank_le_enter { worker with stopping := true } .shuttingDown

theorem beginShutdown_of_stopping (stopping : worker.stopping = true) : worker.beginShutdown = worker :=
  if_pos stopping

end

end Worker

/-! ## What the scripts of a worker do to its life -/

/-- A question, or a change with which the worker ages. -/
def Act.Ages : Act Worker → Prop
  | asked _ _ => True
  | changed found now => found.Ages now

/-- A question, or a change that takes the worker to no earlier phase and does not tell it to stop. Its
coordinator may be told so. -/
def Act.Rises : Act Worker → Prop
  | asked _ _ => True
  | changed found now => found.Rises now ∧ now.stopping = found.stopping

theorem working_ages : Working Act.Ages where
  asked _ _ := trivial
  kept same := Worker.ages_of_same same.settings same.phase same.announced same.stopping
    (congrArg Coordinator.stopping same.coordinator)
  coordinator _ _ same := Worker.ages_of_same rfl rfl rfl rfl same
  entered worker phase := worker.ages_enter phase
  engaged worker shard := (worker.sameLife_engaged shard).ages
  dismiss _ _ := Worker.ages_of_same rfl rfl rfl rfl rfl
  serve worker := worker.sameLife_serve.ages
  finishConsumer worker number := (worker.sameLife_finishConsumer number).ages

/-- What a thread may do to its worker; its mark says whether it has told the worker to stop. -/
inductive Worker.Moves (duty : Duty) : Bool → Worker → Worker → Bool → Prop
  | age {told found now} (ages : found.Ages now) : Moves duty told found now told
  | beginShutdown {told found} (asked : duty = .request .shutdown) : Moves duty told found found.beginShutdown true
  /-- It may stop the coordinator once it has told the worker to stop. -/
  | stop {told found now} (knows : told = true) (rises : found.Rises now) (stopping : now.stopping = found.stopping) :
    Moves duty told found now true

/-- The rules by which a worker ages. -/
def ageing {Job : Type} (startable : Job → Prop) (duty : Duty) : Protocol Worker Job Bool where
  hears _ _ := True
  sees _ := True
  asks told _ _ after := after = told
  steps := Worker.Moves duty
  starts told job child after := startable job ∧ child = false ∧ after = told

/-- A script of one kind keeps to all rules from which no act of the kind leads away. -/
theorem Script.Only.follows {σ Job Mark α : Type} {rules : Protocol σ Job Mark} {mark : Mark} {sees : σ → Prop}
    {each : Act σ → Prop} {wanted : α → Prop} {script : Script σ Job α} (keeps : script.Only sees each wanted)
    (seen : ∀ state, rules.sees state → sees state)
    (asks : ∀ query reply, each (.asked query reply) → rules.asks mark query reply mark)
    (steps : ∀ found now, each (.changed found now) → rules.steps mark found now mark)
    (starts : ∀ job, ∃ child, rules.starts mark job child mark) :
    script.Follows rules (fun after value => after = mark ∧ wanted value) mark := by
  have startsAll (jobs : List Job) : ∃ children, rules.StartsAll mark jobs children mark := by
    induction jobs with
    | nil => exact ⟨[], .nil mark⟩
    | cons job rest ih =>
      obtain ⟨child, first⟩ := starts job
      obtain ⟨children, others⟩ := ih
      exact ⟨child :: children, .cons first others⟩
  induction script with
  | done value => exact ⟨rfl, keeps⟩
  | ask query next ih =>
    intro reply _
    obtain ⟨_, kind, rest⟩ := keeps reply trivial
    exact ⟨mark, asks query reply kind, ih reply rest⟩
  | step ready change next ih =>
    intro state here permitted
    obtain ⟨_, kind, rest⟩ := keeps state (seen state here) permitted
    exact ⟨mark, steps _ _ kind, ih state rest⟩
  | sleep millis stopped next ih => exact fun complete => ih complete (keeps complete)
  | spawn job next ih =>
    obtain ⟨_, _, _, rest⟩ := keeps
    obtain ⟨child, isOpen⟩ := starts job
    exact ⟨child, mark, isOpen, ih rest⟩
  | gather jobs next ih =>
    obtain ⟨_, _, _, rest⟩ := keeps
    obtain ⟨children, isOpen⟩ := startsAll jobs
    exact ⟨children, mark, isOpen, ih rest⟩

section

variable {α : Type} {duty : Duty} {told : Bool}

/-- A script with which the worker ages leaves the mark of its thread alone. -/
theorem Script.Stays.ages {script : WorkerScript α} (stays : script.Stays Act.Ages) :
    script.Follows (ageing (fun _ => True) duty) (fun after _ => after = told) told := by
  have follows : script.Follows (ageing (fun _ => True) duty) (fun after _ => after = told ∧ True) told :=
    Script.Only.follows stays (fun _ _ => trivial) (fun _ _ _ => rfl) (fun _ _ ages => .age ages)
      fun _ => ⟨false, trivial, rfl, rfl⟩
  exact follows.imp fun _ _ => And.left

/-- Once the worker was told to stop, its coordinator may be stopped. -/
theorem keeping_ages (script : CoordinatorScript α) :
    (Worker.keeping script).Follows (ageing (fun _ => True) duty) (fun after _ => after = true) true := by
  have stays : (Worker.keeping script).Stays Act.Rises :=
    Script.embed_stays (fun _ _ => trivial) (fun _ _ => ⟨⟨rfl, .inl ⟨rfl, rfl⟩⟩, rfl⟩) script
  have follows : (Worker.keeping script).Follows (ageing (fun _ => True) duty) (fun after _ => after = true ∧ True)
      true :=
    Script.Only.follows stays (fun _ _ => trivial) (fun _ _ _ => rfl) (fun _ _ kept => .stop rfl kept.1 kept.2)
      fun _ => ⟨false, trivial, rfl, rfl⟩
  exact follows.imp fun _ _ => And.left

theorem shutdown_ages : Worker.shutdown.Follows (ageing (fun _ => True) (.request .shutdown))
    (fun _ _ => True) told := by
  refine fun found _ _ => ⟨true, .beginShutdown rfl, ?_⟩
  simp only [Script.done_bind]
  split
  · trivial
  · refine (Script.follows_bind ..).2 ((keeping_ages Coordinator.stop).imp fun after _ same => ?_)
    subst same
    refine fun waited _ _ => ⟨true, .age (Worker.ages_of_same rfl rfl rfl rfl rfl), fun last _ _ => ?_⟩
    exact ⟨true, .age (last.ages_enter .shutDown), trivial⟩

end

/-! ## The discipline -/

/-- The rules of a fleet whose workers age. -/
def ageingDiscipline : Discipline Worker Duty Outcome Bool where
  rules _ := ageing fun next => ∀ request, next ≠ .request request
  idle := false
  finishes _ _ _ _ := True

theorem ageing_script {α : Type} {duty : Duty} {told : Bool} {wanted : Bool → α → Prop} {script : WorkerScript α}
    (follows : script.Follows (ageing (fun _ => True) duty) wanted told) :
    (Duty.script script).Follows (ageing (fun next => ∀ request, next ≠ .request request) duty) wanted told :=
  Script.Follows.embed (ageing (fun _ => True) duty) (fun _ _ => id) (fun _ => id) (fun _ _ _ _ => id)
    (fun _ _ _ _ => id) (fun _ _ _ _ isOpen => ⟨by simp, isOpen.2⟩) follows

theorem ageing_behaviour (place : String) {duty : Duty} (may : duty ≠ .request .stopLoops) :
    ageingDiscipline.Keeps place duty (Duty.behaviour duty) false := by
  have follows (next : Duty) (other : ∀ request, next ≠ .request request) :
      ageingDiscipline.Ends place duty false (.inl next) := ⟨false, other, rfl, rfl⟩
  have stays {α : Type} {script : WorkerScript α} {following : α → Script Worker Duty (Duty ⊕ Outcome)}
      (first : script.Stays Act.Ages)
      (rest : ∀ value, ageingDiscipline.Keeps place duty (following value) false) :
      ageingDiscipline.Keeps place duty ((Duty.script script).bind following) false :=
    (Script.follows_bind ..).2 ((ageing_script first.ages).imp fun _ value same => same ▸ rest value)
  cases duty with
  | request asked =>
    by_cases isShutdown : asked = .shutdown
    · subst isShutdown
      refine (Script.follows_bind ..).2 (ageing_script ((Script.follows_bind ..).2 ?_))
      exact shutdown_ages.imp fun _ _ _ => trivial
    · exact stays (working_ages.request isShutdown fun isStop => may (congrArg _ isStop)) fun _ => trivial
  | background job =>
    refine stays (working_ages.perform job) fun next => ?_
    cases next with
    | none => trivial
    | some next => exact follows _ (by simp)
  | run =>
    refine stays working_ages.bringUp fun result => ?_
    cases result with
    | error error => trivial
    | ok _ => exact follows _ (by simp)
  | process =>
    refine stays working_ages.processOnce fun _ => fun found _ _ =>
      ⟨false, .age (Worker.ages_of_same rfl rfl rfl rfl rfl), fun complete => ?_⟩
    cases complete with
    | false => trivial
    | true => exact follows _ (by simp)

/-- The calls by which a fleet is asked for anything but background work, except that coordinators are
stopped by their workers only. -/
def Duty.IsCall (duty : Duty) : Prop := duty.background? = none ∧ duty ≠ .request .stopLoops

theorem ageingDiscipline_obeyed : ageingDiscipline.Obeyed Duty.behaviour Duty.IsCall where
  begun place _ may := ageing_behaviour place may.2
  started {place _ _ next _ _} isOpen := by
    obtain ⟨other, rfl, _⟩ := isOpen
    exact ageing_behaviour place (other .stopLoops)

/-! ## Runs -/

namespace Worker

/-- The announced phases rise to the present one, and who was told to stop is past running; a coordinator
is stopped by its worker only. -/
structure InOrder (worker : Worker) : Prop where
  rising : (.created :: worker.announced).Pairwise fun earlier later => earlier.rank < later.rank
  upTo : ∀ phase ∈ .created :: worker.announced, phase.rank ≤ worker.phase.rank
  present : worker.phase ∈ .created :: worker.announced
  past : worker.stopping = true → WorkerPhase.shuttingDown.rank ≤ worker.phase.rank
  told : worker.coordinator.stopping = true → worker.stopping = true

/-- What is never taken back. -/
structure Older (earlier later : Worker) : Prop where
  settings : later.settings = earlier.settings
  phase : earlier.phase.rank ≤ later.phase.rank
  announced : earlier.announced <+: later.announced
  stopping : earlier.stopping = true → later.stopping = true

variable {worker found now : Worker}

theorem Older.refl (worker : Worker) : worker.Older worker := ⟨rfl, Nat.le_refl _, List.prefix_refl _, id⟩

theorem Older.trans {first : Worker} (earlier : first.Older found) (later : found.Older now) : first.Older now :=
  ⟨later.settings.trans earlier.settings, Nat.le_trans earlier.phase later.phase,
    earlier.announced.trans later.announced, fun stopping => later.stopping (earlier.stopping stopping)⟩

theorem Rises.rank_le (rises : found.Rises now) : found.phase.rank ≤ now.phase.rank := by
  rcases rises.phase with ⟨phase, _⟩ | ⟨later, _⟩
  · exact Nat.le_of_eq (congrArg _ phase.symm)
  · exact Nat.le_of_lt later

theorem Rises.older (rises : found.Rises now) (stopping : found.stopping = true → now.stopping = true) :
    found.Older now := by
  refine ⟨rises.settings, rises.rank_le, ?_, stopping⟩
  rcases rises.phase with ⟨_, announced⟩ | ⟨_, announced⟩
  · exact announced ▸ List.prefix_refl _
  · exact announced ▸ List.prefix_append _ _

theorem Moves.rises {duty : Duty} {told after : Bool} (moves : Worker.Moves duty told found now after) :
    found.Rises now := by
  cases moves with
  | age ages => exact ages.toRises
  | beginShutdown => exact found.rises_beginShutdown
  | stop _ rises _ => exact rises

theorem Moves.older {duty : Duty} {told after : Bool} (moves : Worker.Moves duty told found now after) :
    found.Older now := by
  refine moves.rises.older fun stopping => ?_
  cases moves with
  | age ages => exact ages.stopping.trans stopping
  | beginShutdown => exact found.stopping_beginShutdown
  | stop _ _ same => exact same.trans stopping

/-- A worker in order stays so when it rises. -/
theorem InOrder.rises (inOrder : found.InOrder) (rises : found.Rises now)
    (past : now.stopping = true → WorkerPhase.shuttingDown.rank ≤ now.phase.rank)
    (told : now.coordinator.stopping = true → now.stopping = true) : now.InOrder := by
  rcases rises.phase with ⟨phase, announced⟩ | ⟨later, announced⟩
  · refine ⟨announced ▸ inOrder.rising, ?_, ?_, past, told⟩
    · rw [announced, phase]
      exact inOrder.upTo
    · rw [announced, phase]
      exact inOrder.present
  · have append : WorkerPhase.created :: now.announced = (.created :: found.announced) ++ [now.phase] := by
      rw [announced, List.cons_append]
    refine ⟨?_, fun phase mem => ?_, by simp [append], past, told⟩
    · rw [append, List.pairwise_append]
      refine ⟨inOrder.rising, List.pairwise_singleton _ _, fun earlier mem last same => ?_⟩
      rw [List.mem_singleton.1 same]
      exact Nat.lt_of_le_of_lt (inOrder.upTo earlier mem) later
    · rw [append] at mem
      rcases List.mem_append.1 mem with earlier | last
      · exact Nat.le_of_lt (Nat.lt_of_le_of_lt (inOrder.upTo phase earlier) later)
      · exact Nat.le_of_eq (congrArg _ (List.mem_singleton.1 last))

/-- A phase that a worker has announced and is past was announced before. -/
theorem InOrder.mem_of_older (inOrder : found.InOrder) (later : now.InOrder) (older : found.Older now)
    {phase : WorkerPhase} (mem : phase ∈ .created :: now.announced) (past : phase.rank ≤ found.phase.rank) :
    phase ∈ .created :: found.announced := by
  obtain ⟨since, split⟩ := older.announced
  have rising := later.rising
  rw [← split, ← List.cons_append] at mem rising
  rcases List.mem_append.1 mem with earlier | new
  · exact earlier
  · have after := (List.pairwise_append.1 rising).2.2 found.phase inOrder.present phase new
    exact absurd after (Nat.not_lt_of_le past)

theorem InOrder.moves {duty : Duty} {told after : Bool} (inOrder : found.InOrder)
    (moves : Worker.Moves duty told found now after) (knows : told = true → found.stopping = true) :
    now.InOrder := by
  cases moves with
  | age ages =>
    refine inOrder.rises ages.toRises (fun stopping => ?_) fun coordinator => ?_
    · exact Nat.le_trans (inOrder.past (ages.stopping ▸ stopping)) ages.rank_le
    · exact ages.stopping.trans (inOrder.told (ages.coordinator ▸ coordinator))
  | beginShutdown asked =>
    refine inOrder.rises found.rises_beginShutdown (fun _ => ?_) fun _ => found.stopping_beginShutdown
    cases stopping : found.stopping with
    | false => exact found.rank_le_beginShutdown stopping
    | true =>
      rw [found.beginShutdown_of_stopping stopping]
      exact inOrder.past stopping
  | stop told rises same =>
    have stopping := knows told
    exact inOrder.rises rises (fun _ => Nat.le_trans (inOrder.past stopping) rises.rank_le)
      fun _ => same.trans stopping

end Worker

/-- The workers of a fleet are in order, and who was told to stop was told so by a call to shut it down. -/
structure Aged (trace : List (Event Duty Outcome)) (s : FleetState) (marks : Nat → Bool) : Prop where
  inOrder : ∀ {place worker}, s.places.get? place = some worker → worker.InOrder
  asked : ∀ {place worker}, s.places.get? place = some worker → worker.stopping = true →
    .begun place (.request .shutdown) ∈ trace
  told : ∀ {id thread worker}, s.threads.get? id = some thread → marks id = true →
    s.places.get? thread.place = some worker → worker.stopping = true
  begun : ∀ {id thread}, s.threads.get? id = some thread → thread.job = .request .shutdown →
    .begun thread.place (.request .shutdown) ∈ trace

namespace Aged

variable {trace : List (Event Duty Outcome)} {s after : FleetState} {marks remarked : Nat → Bool}
  {event : Event Duty Outcome}

/-- Nothing is forgotten of what was shown. -/
theorem mono {longer : List (Event Duty Outcome)} (aged : Aged trace s marks)
    (contains : ∀ {place}, .begun place (.request .shutdown) ∈ trace → .begun place (.request .shutdown) ∈ longer) :
    Aged longer s marks where
  inOrder := aged.inOrder
  asked found stopping := contains (aged.asked found stopping)
  told := aged.told
  begun found isShutdown := contains (aged.begun found isShutdown)

theorem of_same (aged : Aged trace s marks) (places : after.places = s.places) (threads : after.threads = s.threads) :
    Aged trace after marks where
  inOrder found := aged.inOrder (places ▸ found)
  asked found := aged.asked (places ▸ found)
  told found told here := aged.told (threads ▸ found) told (places ▸ here)
  begun found := aged.begun (threads ▸ found)

/-- A thread is new or has gone on. -/
theorem insert (aged : Aged trace s marks) {id : Nat} {thread : Thread Worker Duty Outcome} {mark : Bool}
    (threads : after.threads = s.threads.insert id thread) (places : after.places = s.places)
    (told : mark = true → ∀ {worker}, s.places.get? thread.place = some worker → worker.stopping = true)
    (begun : thread.job = .request .shutdown → .begun thread.place (.request .shutdown) ∈ trace) :
    Aged trace after (setMark marks id mark) where
  inOrder found := aged.inOrder (places ▸ found)
  asked found := aged.asked (places ▸ found)
  told {_ _ worker} found marked here :=
    forall_threads_insert (P := fun thread mark => mark = true → s.places.get? thread.place = some worker →
        worker.stopping = true) (fun marked here => told marked here)
      (fun _ found marked here => aged.told found marked here) (threads ▸ found) marked (places ▸ here)
  begun found :=
    SortedMap.forall_insert (P := fun _ thread => thread.job = .request .shutdown →
      .begun thread.place (.request .shutdown) ∈ trace) begun (fun _ found => aged.begun found) (threads ▸ found)

/-- A worker ages. -/
theorem setPlace (aged : Aged trace s marks) {id : Nat} {thread : Thread Worker Duty Outcome} {worker now : Worker}
    {told : Bool} (found : s.threads.get? id = some thread) (here : s.places.get? thread.place = some worker)
    (moves : Worker.Moves thread.job (marks id) worker now told) :
    Aged trace (s.setPlace thread.place now) marks where
  inOrder := by
    have inOrder := (aged.inOrder here).moves moves fun knows => aged.told found knows here
    exact fun {_ _} there => SortedMap.forall_insert (P := fun _ worker => worker.InOrder) inOrder
      (fun _ there => aged.inOrder there) there
  asked := by
    have asked (stopping : now.stopping = true) : .begun thread.place (.request .shutdown) ∈ trace := by
      cases moves with
      | age ages => exact aged.asked here (ages.stopping ▸ stopping)
      | beginShutdown isShutdown => exact aged.begun found isShutdown
      | stop _ _ same => exact aged.asked here (same ▸ stopping)
    exact fun {_ _} there => SortedMap.forall_insert (P := fun place worker => worker.stopping = true →
      .begun place (.request .shutdown) ∈ trace) asked (fun _ there => aged.asked there) there
  told {_ other _} foundOther marked there := by
    rcases SortedMap.get?_insert_eq_some_iff.1 there with ⟨same, rfl⟩ | ⟨_, there⟩
    · exact moves.older.stopping (aged.told foundOther marked (same ▸ here))
    · exact aged.told foundOther marked there
  begun := aged.begun

theorem move (aged : Aged trace s marks)
    (move : ageingDiscipline.Move Duty.behaviour Duty.IsCall s marks event after remarked) :
    Aged (trace ++ [event]) after remarked := by
  have longer := aged.mono fun mem => List.mem_append_left [event] mem
  cases move with
  | ask script found answers isOpen =>
    subst isOpen
    have begun := longer.begun found
    refine (longer.of_same answers.places answers.threads).insert rfl rfl (fun marked worker there => ?_)
      begun
    exact longer.told found marked (answers.places ▸ there)
  | change script found here isOpen =>
    have begun := longer.begun found
    refine (longer.setPlace found here isOpen).insert rfl rfl (fun marked worker there => ?_) begun
    obtain rfl := Option.some.inj ((SortedMap.get?_insert_self ..).symm.trans there)
    cases isOpen with
    | age ages => exact ages.stopping.trans (aged.told found marked here)
    | beginShutdown => exact Worker.stopping_beginShutdown _
    | stop knows _ same => exact same.trans (aged.told found knows here)
  | stay script pending found =>
    have begun := longer.begun found
    rw [← Discipline.setMark_same marks _]
    exact longer.insert rfl rfl (fun marked worker here => longer.told found marked here) begun
  | spawn thread found isOpen =>
    obtain ⟨other, rfl, rfl⟩ := isOpen
    rw [Discipline.setMark_same]
    exact longer.insert rfl rfl (by simp) fun same => absurd same (other .shutdown)
  | follow found isOpen =>
    obtain ⟨other, rfl, _⟩ := isOpen
    exact longer.insert rfl rfl (by simp) fun same => absurd same (other .shutdown)
  | finish found isOpen =>
    refine { longer with told := fun there => ?_, begun := fun there => ?_ }
    · exact longer.told (SortedMap.get?_erase_eq_some_iff.1 there).2
    · exact longer.begun (SortedMap.get?_erase_eq_some_iff.1 there).2
  | begin known may =>
    refine longer.insert rfl rfl (by simp [ageingDiscipline]) fun same => ?_
    exact List.mem_append_right _ (List.mem_singleton.2 (same ▸ rfl))
  | outside may answers =>
    exact longer.of_same ((Interleaving.keepCopies_places ..).trans answers.places)
      ((Interleaving.keepCopies_threads ..).trans answers.threads)

end Aged

/-- The runs of a fleet of which nobody but its workers stops the coordinators. -/
abbrev CallRun := Interleaving.Run Duty.behaviour Duty.IsCall

/-- The steps of a fleet of which nobody but its workers stops the coordinators. -/
abbrev CallStep := Interleaving.Step Duty.behaviour Duty.IsCall

section

variable {leases : List Lease} {setups : List WorkerSetup} {trace more : List (Event Duty Outcome)}
  {s after last : FleetState} {event : Event Duty Outcome} {place : String} {worker now : Worker}

theorem aged_of_run (run : CallRun (fleetStart leases setups) trace s) :
    ∃ marks, ageingDiscipline.Marked s marks ∧ Aged trace s marks := by
  have start : Aged [] (fleetStart leases setups) fun _ => false := by
    refine ⟨fun found => ?_, fun found stopping => ?_, by simp [fleetStart], by simp [fleetStart]⟩
    · obtain ⟨setup, _, rfl⟩ := places_fleetStart found
      refine ⟨List.pairwise_singleton _ _, ?_, ?_, fun stopping => ?_, fun stopping => ?_⟩
      · simp [WorkerSetup.worker]
      · simp [WorkerSetup.worker]
      · cases stopping
      · cases stopping
    · obtain ⟨setup, _, rfl⟩ := places_fleetStart found
      cases stopping
  exact Discipline.Run.keeps_marked Aged (fun _ => True) ageingDiscipline_obeyed (fun aged move _ => aged.move move)
    (fun aged => aged.mono fun mem => (List.mem_append.1 mem).resolve_right (by simp)) (fun _ _ _ => trivial)
    (fun _ _ => trivial) (Discipline.marked_of_no_threads _ rfl) start run fun _ _ => trivial

/-- A worker is in order at every instant of a run. -/
theorem inOrder_of_run (run : CallRun (fleetStart leases setups) trace s)
    (found : s.places.get? place = some worker) : worker.InOrder := by
  obtain ⟨_, _, aged⟩ := aged_of_run run
  exact aged.inOrder found

/-- What becomes of a worker by a step. -/
theorem worker_of_step (run : CallRun (fleetStart leases setups) trace s) (step : CallStep s event after)
    (found : after.places.get? place = some now) :
    ∃ worker, s.places.get? place = some worker ∧ worker.Rises now ∧ worker.Older now := by
  obtain ⟨marks, marked, _⟩ := aged_of_run run
  rcases Discipline.Step.place_cases marked (fun _ _ => trivial) step found with
    same | ⟨_, id, thread, worker, mark, _, _, here, moves⟩
  · exact ⟨now, same, now.rises_refl, .refl now⟩
  · exact ⟨worker, here, moves.rises, moves.older⟩

/-- What is never taken back is never taken back by a run. -/
theorem older_of_run (run : CallRun (fleetStart leases setups) trace s) (since : CallRun s more last)
    (found : s.places.get? place = some worker) (there : last.places.get? place = some now) :
    worker.Older now := by
  induction since generalizing now with
  | refl =>
    obtain rfl := Option.some.inj (found.symm.trans there)
    exact .refl worker
  | snoc before step ih =>
    obtain ⟨between, here, _, older⟩ := worker_of_step (run.trans before) step there
    exact (ih here).trans older

end

end LeaseFleet
