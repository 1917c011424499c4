import LeaseFleet.Proofs.Script.Protocol

/-!
# Disciplines

A discipline gives every place and job its protocol. Where all jobs follow theirs, the threads of an
interleaving can be marked at every instant of a run (`Marked`), and each step consists of moves
that the discipline leaves open (`Step.moves`). An invariant of states and marks that every open
move keeps therefore holds after every run (`Run.keeps_marked`).
-/

namespace LeaseFleet

variable {σ Job Result Mark : Type}

/-- The rules of an interleaving. -/
structure Discipline (σ Job Result Mark : Type) where
  rules : String → Job → Protocol σ Job Mark
  /-- The mark of a thread that is begun from outside. -/
  idle : Mark
  /-- The results with which a thread may end. -/
  finishes : String → Job → Mark → Result → Prop

/-- The marks of threads, one of them changed. -/
def setMark (marks : Nat → Mark) (id : Nat) (mark : Mark) : Nat → Mark :=
  fun other => if other = id then mark else marks other

@[simp] theorem setMark_self (marks : Nat → Mark) (id : Nat) (mark : Mark) :
    setMark marks id mark id = mark := by
  simp [setMark]

theorem setMark_of_ne (marks : Nat → Mark) {id other : Nat} (ne : other ≠ id) (mark : Mark) :
    setMark marks id mark other = marks other := by
  simp [setMark, ne]

/-- What holds of a new thread with its mark and of the others with theirs holds of all threads. -/
theorem forall_threads_insert {P : Thread σ Job Result → Mark → Prop}
    {threads : SortedMap Nat (Thread σ Job Result)} {marks : Nat → Mark} {id : Nat}
    {thread : Thread σ Job Result} {mark : Mark} (new : P thread mark)
    (others : ∀ {other there}, other ≠ id → threads.get? other = some there → P there (marks other))
    {other : Nat} {there : Thread σ Job Result}
    (here : (threads.insert id thread).get? other = some there) :
    P there (setMark marks id mark other) := by
  rcases SortedMap.get?_insert_eq_some_iff.1 here with ⟨rfl, rfl⟩ | ⟨ne, here⟩
  · rw [setMark_self]
    exact new
  · rw [setMark_of_ne marks ne]
    exact others ne here

namespace Discipline

/-- How a job may end: with a result that is open, or with a job that may be started by a thread to
which nothing else is left, so that the mark of the job is its own. -/
def Ends (discipline : Discipline σ Job Result Mark) (place : String) (job : Job) (mark : Mark) :
    Job ⊕ Result → Prop
  | .inl next => ∃ child, (discipline.rules place job).starts mark next child child
  | .inr result => discipline.finishes place job mark result

/-- A script of a job keeps to the discipline from a mark. -/
def Keeps (discipline : Discipline σ Job Result Mark) (place : String) (job : Job)
    (script : Script σ Job (Job ⊕ Result)) (mark : Mark) : Prop :=
  script.Follows (discipline.rules place job) (discipline.Ends place job) mark

/-- Every job that can come up keeps to the discipline. -/
structure Obeyed (discipline : Discipline σ Job Result Mark)
    (behaviour : Machine.Behaviour σ Job Result) (asked : Job → Prop) : Prop where
  begun : ∀ place job, asked job → discipline.Keeps place job (behaviour job) discipline.idle
  started : ∀ {place job mark next child after},
    (discipline.rules place job).starts mark next child after →
      discipline.Keeps place next (behaviour next) child

/-- Every thread keeps to the discipline from its mark, and later threads get other numbers. -/
structure Marked (discipline : Discipline σ Job Result Mark) (s : Interleaving σ Job Result)
    (marks : Nat → Mark) : Prop where
  keeps : ∀ {id thread}, s.threads.get? id = some thread →
    discipline.Keeps thread.place thread.job thread.script (marks id)
  fresh : ∀ {id thread}, s.threads.get? id = some thread → id < s.started

/-- What the discipline leaves open to a single thread or to somebody else. -/
inductive Move (discipline : Discipline σ Job Result Mark)
    (behaviour : Machine.Behaviour σ Job Result) (asked : Job → Prop) :
    Interleaving σ Job Result → (Nat → Mark) → Event Job Result →
      Interleaving σ Job Result → (Nat → Mark) → Prop
  | ask {s answered marks id thread query reply after} (script : Script σ Job (Job ⊕ Result))
      (found : s.threads.get? id = some thread) (answers : s.Answers query reply answered)
      (isOpen : (discipline.rules thread.place thread.job).asks (marks id) query reply after) :
      Move discipline behaviour asked s marks (.ofAnswer thread.place thread.job query reply)
        (answered.goOn id { thread with script }) (setMark marks id after)
  | change {s marks id thread state now after} (script : Script σ Job (Job ⊕ Result))
      (found : s.threads.get? id = some thread) (here : s.places.get? thread.place = some state)
      (isOpen : (discipline.rules thread.place thread.job).steps (marks id) state now after) :
      Move discipline behaviour asked s marks .inner
        ((s.setPlace thread.place now).goOn id { thread with script }) (setMark marks id after)
  | stay {s marks id thread} (script : Script σ Job (Job ⊕ Result)) (pending : List Nat)
      (found : s.threads.get? id = some thread) :
      Move discipline behaviour asked s marks .inner
        (s.goOn id { thread with script, pending }) marks
  | spawn {s marks id job child after} (thread : Thread σ Job Result)
      (found : s.threads.get? id = some thread)
      (isOpen : (discipline.rules thread.place thread.job).starts (marks id) job child after) :
      Move discipline behaviour asked s marks .inner (s.launch behaviour thread.place job)
        (setMark (setMark marks id after) s.started child)
  | follow {s marks id thread job child} (found : s.threads.get? id = some thread)
      (isOpen : (discipline.rules thread.place thread.job).starts (marks id) job child child) :
      Move discipline behaviour asked s marks .inner
        (s.goOn id { thread with job, script := behaviour job }) (setMark marks id child)
  | finish {s marks id thread result} (found : s.threads.get? id = some thread)
      (isOpen : discipline.finishes thread.place thread.job (marks id) result) :
      Move discipline behaviour asked s marks (.ended thread.place thread.job result) (s.drop id)
        marks
  | begin {s : Interleaving σ Job Result} {marks place job}
      (known : s.places.contains place = true) (may : asked job) :
      Move discipline behaviour asked s marks (.begun place job) (s.launch behaviour place job)
        (setMark marks s.started discipline.idle)
  | outside {s answered : Interleaving σ Job Result} {marks} {call : StoreCall}
      {reply : call.Reply} (may : s.MayCall call) (answers : s.Answers (.store call) reply answered) :
      Move discipline behaviour asked s marks (.outside call reply)
        (answered.keepCopies call reply) marks

/-- One move, or several that show nothing. -/
inductive Moves (discipline : Discipline σ Job Result Mark)
    (behaviour : Machine.Behaviour σ Job Result) (asked : Job → Prop) :
    Interleaving σ Job Result → (Nat → Mark) → Event Job Result →
      Interleaving σ Job Result → (Nat → Mark) → Prop
  | one {s marks event after marked} (move : discipline.Move behaviour asked s marks event after marked) :
      Moves discipline behaviour asked s marks event after marked
  | more {s marks between marked after remarked}
      (earlier : Moves discipline behaviour asked s marks .inner between marked)
      (move : discipline.Move behaviour asked between marked .inner after remarked) :
      Moves discipline behaviour asked s marks .inner after remarked

end Discipline

namespace Discipline

variable {discipline : Discipline σ Job Result Mark} {behaviour : Machine.Behaviour σ Job Result}
  {asked : Job → Prop} {s : Interleaving σ Job Result} {marks : Nat → Mark}

/-- Marks concern threads only. -/
theorem Marked.of_same_threads {other : Interleaving σ Job Result} (marked : discipline.Marked s marks)
    (threads : other.threads = s.threads) (started : other.started = s.started) :
    discipline.Marked other marks where
  keeps found := marked.keeps (threads ▸ found)
  fresh found := started ▸ marked.fresh (threads ▸ found)

theorem Marked.goOn {id : Nat} {old : Thread σ Job Result} {mark : Mark}
    (marked : discipline.Marked s marks) (thread : Thread σ Job Result) (found : s.threads.get? id = some old)
    (keeps : discipline.Keeps thread.place thread.job thread.script mark) :
    discipline.Marked (s.goOn id thread) (setMark marks id mark) where
  keeps here :=
    forall_threads_insert (P := fun there mark => discipline.Keeps there.place there.job there.script mark)
      keeps (fun _ => marked.keeps) here
  fresh here :=
    SortedMap.forall_insert (P := fun other _ => other < s.started) (marked.fresh found)
      (fun _ => marked.fresh) here

theorem Marked.launch {place : String} {job : Job} {mark : Mark}
    (marked : discipline.Marked s marks) (behaviour : Machine.Behaviour σ Job Result)
    (keeps : discipline.Keeps place job (behaviour job) mark) :
    discipline.Marked (s.launch behaviour place job) (setMark marks s.started mark) where
  keeps here :=
    forall_threads_insert (P := fun there mark => discipline.Keeps there.place there.job there.script mark)
      keeps (fun _ => marked.keeps) here
  fresh here :=
    SortedMap.forall_insert (P := fun other _ => other < s.started + 1) (Nat.lt_succ_self _)
      (fun _ here => Nat.lt_succ_of_lt (marked.fresh here)) here

theorem Marked.drop {id : Nat} (marked : discipline.Marked s marks) :
    discipline.Marked (s.drop id) marks where
  keeps here := marked.keeps (SortedMap.get?_erase_eq_some_iff.1 here).2
  fresh here := marked.fresh (SortedMap.get?_erase_eq_some_iff.1 here).2

theorem setMark_setMark (marks : Nat → Mark) (id : Nat) (first second : Mark) :
    setMark (setMark marks id first) id second = setMark marks id second := by
  funext other
  by_cases same : other = id <;> simp [setMark, same]

theorem setMark_comm (marks : Nat → Mark) {id other : Nat} (ne : id ≠ other) (first second : Mark) :
    setMark (setMark marks id first) other second = setMark (setMark marks other second) id first := by
  funext third
  by_cases one : third = id
  · have notOther : third ≠ other := one ▸ ne
    simp [setMark, one, ne]
  · simp [setMark, one]

theorem setMark_same (marks : Nat → Mark) (id : Nat) : setMark marks id (marks id) = marks := by
  funext other
  by_cases same : other = id <;> simp [setMark, same]

/-- Starting several jobs is a sequence of moves, each of which starts one. -/
theorem moves_launchAll (thread : Thread σ Job Result) (obeyed : discipline.Obeyed behaviour asked) {id : Nat}
    {jobs : List Job} {children : List Mark} {mark after : Mark}
    (isOpen : (discipline.rules thread.place thread.job).StartsAll mark jobs children after)
    {between : Interleaving σ Job Result} {marked : Nat → Mark}
    (earlier : discipline.Moves behaviour asked s marks .inner between marked)
    (found : between.threads.get? id = some thread) (here : marked id = mark)
    (keeps : discipline.Marked between (setMark marked id after)) :
    ∃ remarked, discipline.Marked (between.launchAll behaviour thread.place jobs) remarked ∧
      discipline.Moves behaviour asked s marks .inner
        (between.launchAll behaviour thread.place jobs) remarked := by
  induction isOpen generalizing between marked with
  | nil mark =>
    subst here
    rw [setMark_same] at keeps
    exact ⟨marked, keeps, earlier⟩
  | @cons mark child middle after job jobs children first others ih =>
    subst here
    have notNew : id ≠ between.started := Nat.ne_of_lt (keeps.fresh found)
    refine ih (.more earlier (.spawn thread found first)) ?_ ?_ ?_
    · exact SortedMap.get?_insert_eq_some_iff.2 (.inr ⟨notNew, found⟩)
    · rw [setMark_of_ne _ notNew, setMark_self]
    · have launched := keeps.launch behaviour (obeyed.started first)
      rw [setMark_comm _ notNew] at launched
      rw [setMark_comm _ notNew, setMark_setMark, ← setMark_comm _ notNew]
      rw [← setMark_comm _ notNew] at launched
      exact launched

/-- Every step of an interleaving consists of open moves. -/
theorem Step.moves (obeyed : discipline.Obeyed behaviour asked) (marked : discipline.Marked s marks)
    {event : Event Job Result} {after : Interleaving σ Job Result}
    (sees : ∀ {place state} job, s.places.get? place = some state →
      (discipline.rules place job).sees state)
    (hears : ∀ {place job query reply answered}, event = .ofAnswer place job query reply →
      s.Answers query reply answered → (discipline.rules place job).hears query reply)
    (step : Interleaving.Step behaviour asked s event after) :
    ∃ remarked, discipline.Marked after remarked ∧
      discipline.Moves behaviour asked s marks event after remarked := by
  cases step with
  | @ask answered id thread query next reply ready here answers =>
    have keeps := marked.keeps ready.1
    rw [Keeps, here] at keeps
    obtain ⟨mark, isOpen, rest⟩ := keeps reply (hears rfl answers)
    have moved := marked.of_same_threads answers.threads answers.started
    have found : answered.threads.get? id = some thread := answers.threads ▸ ready.1
    exact ⟨_, moved.goOn _ found rest, .one (.ask _ ready.1 answers isOpen)⟩
  | @change id thread permits change next state ready here found permitted =>
    have keeps := marked.keeps ready.1
    rw [Keeps, here] at keeps
    obtain ⟨mark, isOpen, rest⟩ := keeps state (sees thread.job found) permitted
    have moved : discipline.Marked (s.setPlace thread.place (change state)) marks :=
      marked.of_same_threads rfl rfl
    exact ⟨_, moved.goOn _ ready.1 rest, .one (.change _ ready.1 found isOpen)⟩
  | @sleep id thread millis stopped next state complete ready here _ _ =>
    have keeps := marked.keeps ready.1
    rw [Keeps, here] at keeps
    have moved := marked.goOn { thread with script := next complete } ready.1
      (keeps complete)
    rw [setMark_same] at moved
    exact ⟨_, moved, .one (.stay _ thread.pending ready.1)⟩
  | @spawn id thread job next ready here =>
    have keeps := marked.keeps ready.1
    rw [Keeps, here] at keeps
    obtain ⟨child, mark, isOpen, rest⟩ := keeps
    have gone : (s.goOn id { thread with script := next }).threads.get? id =
        some { thread with script := next } := SortedMap.get?_insert_self ..
    have moved := (marked.goOn { thread with script := next } ready.1 rest).launch behaviour
      (obeyed.started isOpen)
    exact ⟨_, moved, .more (.one (.stay next thread.pending ready.1))
      (.spawn { thread with script := next } gone isOpen)⟩
  | @gather id thread jobs next ready here =>
    have keeps := marked.keeps ready.1
    rw [Keeps, here] at keeps
    obtain ⟨children, mark, isOpen, rest⟩ := keeps
    have gone : (s.goOn id { thread with script := next, pending := s.nextIds jobs }).threads.get? id =
        some { thread with script := next, pending := s.nextIds jobs } := SortedMap.get?_insert_self ..
    have moved := marked.goOn { thread with script := next, pending := s.nextIds jobs } ready.1 rest
    exact moves_launchAll { thread with script := next, pending := s.nextIds jobs } obeyed isOpen
      (.one (.stay next _ ready.1)) gone rfl moved
  | @follow id thread job ready here =>
    have keeps := marked.keeps ready.1
    rw [Keeps, here] at keeps
    obtain ⟨child, isOpen⟩ := keeps
    have moved := marked.goOn { thread with job, script := behaviour job } ready.1
      (obeyed.started isOpen)
    exact ⟨_, moved, .one (.follow ready.1 isOpen)⟩
  | @finish id thread result ready here =>
    have keeps := marked.keeps ready.1
    rw [Keeps, here] at keeps
    exact ⟨_, marked.drop, .one (.finish ready.1 keeps)⟩
  | @begin place job known may =>
    exact ⟨_, marked.launch behaviour (obeyed.begun place job may), .one (.begin known may)⟩
  | @outside answered call reply may answers =>
    have threads : (answered.keepCopies call reply).threads = s.threads := by
      rw [Interleaving.keepCopies_threads, answers.threads]
    have started : (answered.keepCopies call reply).started = s.started := by
      rw [Interleaving.keepCopies_started, answers.started]
    exact ⟨_, marked.of_same_threads threads started, .one (.outside may answers)⟩

/-- A move that shows nothing leaves the table alone. -/
theorem Move.table_of_inner {event : Event Job Result} {after : Interleaving σ Job Result}
    {remarked : Nat → Mark} (move : discipline.Move behaviour asked s marks event after remarked)
    (hidden : event = .inner) : after.table = s.table := by
  cases move with
  | ask script found answers isOpen =>
    cases answers with
    | stored call => cases hidden
    | _ => rfl
  | outside may answers => cases hidden
  | _ => rfl

/-- An invariant that every open move keeps is kept by the moves of a step. -/
theorem Moves.keeps {holds : List (Event Job Result) → Interleaving σ Job Result → (Nat → Mark) → Prop}
    {allowed : Event Job Result → Prop}
    (keeps : ∀ {trace s marks event after remarked}, holds trace s marks →
      discipline.Move behaviour asked s marks event after remarked → allowed event →
        holds (trace ++ [event]) after remarked)
    (hidden : ∀ {trace s marks}, holds (trace ++ [Event.inner]) s marks → holds trace s marks)
    {trace : List (Event Job Result)} {event : Event Job Result} {after : Interleaving σ Job Result}
    {remarked : Nat → Mark} (start : holds trace s marks)
    (moves : discipline.Moves behaviour asked s marks event after remarked) (may : allowed event) :
    holds (trace ++ [event]) after remarked := by
  induction moves with
  | one move => exact keeps start move may
  | more _ move ih => exact keeps (hidden (ih may)) move may

/-- An invariant that every open move keeps holds after every run. -/
theorem Run.keeps_marked
    (holds : List (Event Job Result) → Interleaving σ Job Result → (Nat → Mark) → Prop)
    (allowed : Event Job Result → Prop) (obeyed : discipline.Obeyed behaviour asked)
    (keeps : ∀ {trace s marks event after remarked}, holds trace s marks →
      discipline.Move behaviour asked s marks event after remarked → allowed event →
        holds (trace ++ [event]) after remarked)
    (hidden : ∀ {trace s marks}, holds (trace ++ [Event.inner]) s marks → holds trace s marks)
    (sees : ∀ {trace s marks place state} job, holds trace s marks →
      s.places.get? place = some state → (discipline.rules place job).sees state)
    (hears : ∀ {s answered : Interleaving σ Job Result} {place job query reply},
      allowed (.ofAnswer place job query reply) → s.Answers query reply answered →
        (discipline.rules place job).hears query reply)
    {first last : Interleaving σ Job Result} {trace : List (Event Job Result)}
    (marked : discipline.Marked first marks) (start : holds [] first marks)
    (run : Interleaving.Run behaviour asked first trace last)
    (only : ∀ event ∈ trace, allowed event) :
    ∃ remarked, discipline.Marked last remarked ∧ holds trace last remarked := by
  induction run with
  | refl => exact ⟨marks, marked, start⟩
  | snoc before step ih =>
    obtain ⟨between, markedThen, held⟩ := ih fun event mem => only event (by simp [mem])
    have may := only _ (List.mem_append_right _ List.mem_cons_self)
    obtain ⟨remarked, markedNow, moves⟩ := Step.moves obeyed markedThen
      (fun job found => sees job held found)
      (fun same answers => hears (same ▸ may) answers) step
    exact ⟨remarked, markedNow, moves.keeps keeps hidden held may⟩

/-- Where no thread has been started yet, any marks will do. -/
theorem marked_of_no_threads (marks : Nat → Mark) (none : s.threads = .empty) :
    discipline.Marked s marks where
  keeps found := by simp [none] at found
  fresh found := by simp [none] at found

end Discipline

end LeaseFleet
