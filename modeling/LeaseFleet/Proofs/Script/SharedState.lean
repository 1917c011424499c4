import LeaseFleet.Proofs.Interleaving.Discipline
import LeaseFleet.Proofs.Script.Journals

/-!
# Companies

Scripts that share one state and one clock, each of which acts when it likes. The clock never goes
back, and who asks for it hears the time of the moment; every other question is answered in any way.
Jobs that are started do not show: a company has as many scripts from the beginning as are wanted,
and one that is a job of another may begin at any time. So what holds of all runs of companies holds
of the runs in which jobs begin when they are started.

Where every script follows its rules, each act of a run was open to the one who did it (`Run.opened`).
A run can be computed from a schedule (`run_play`).
-/

namespace LeaseFleet

/-- An act with its time and the number of the script that did it. -/
structure Moment (σ : Type) where
  time : Nat
  thread : Nat
  act : Act σ

/-- Scripts that share a state. -/
structure Company (σ Job α : Type) where
  state : σ
  scripts : Nat → Script σ Job α

namespace Act

variable {σ : Type}

/-- The clock tells the time, and the state that is found is the one that is there. -/
def Fits (time : Nat) (state : σ) : Act σ → Prop
  | asked .clock reply => reply = time
  | asked _ _ => True
  | changed found _ => found = state

/-- A question was answered as the given answers say. -/
def Told (answers : (query : Query) → query.Reply) : Act σ → Prop
  | asked query reply => reply = answers query
  | changed _ _ => True

/-- The state after an act. -/
def after (state : σ) : Act σ → σ
  | asked _ _ => state
  | changed _ now => now

end Act

namespace Company

variable {σ Job α : Type}

/-- One script goes on and leaves a state. -/
def goOn (company : Company σ Job α) (thread : Nat) (rest : Script σ Job α) (state : σ) :
    Company σ Job α where
  state
  scripts := setMark company.scripts thread rest

section

variable (company : Company σ Job α) {thread : Nat} (rest : Script σ Job α) (state : σ)

@[simp] theorem goOn_scripts_self : (company.goOn thread rest state).scripts thread = rest :=
  setMark_self ..

theorem goOn_scripts_of_ne {other : Nat} (ne : other ≠ thread) :
    (company.goOn thread rest state).scripts other = company.scripts other :=
  setMark_of_ne _ ne _

end

/-- The acts of one script, among the moments of a run. -/
def journal (thread : Nat) (moments : List (Moment σ)) : Journal σ :=
  (moments.filter (·.thread = thread)).map (·.act)

@[simp] theorem journal_cons_self (time thread : Nat) (act : Act σ) (before : List (Moment σ)) :
    journal thread ({ time, thread, act } :: before) = act :: journal thread before := by
  simp [journal]

theorem journal_cons_of_ne {thread other : Nat} (ne : thread ≠ other) (time : Nat) (act : Act σ)
    (before : List (Moment σ)) :
    journal thread ({ time, thread := other, act } :: before) = journal thread before := by
  simp [journal, Ne.symm ne]

/-- A part of the journal of a script begins with an act of one of the moments. -/
theorem exists_of_journal_suffix {thread : Nat} {act : Act σ} {earlier : Journal σ}
    {moments : List (Moment σ)} (part : act :: earlier <:+ journal thread moments) :
    ∃ time before, { time, thread, act } :: before <:+ moments ∧ journal thread before = earlier := by
  induction moments with
  | nil => exact absurd (List.suffix_nil.1 part) (List.cons_ne_nil _ _)
  | cons moment before ih =>
    obtain ⟨time, other, last⟩ := moment
    by_cases same : thread = other
    · subst same
      rw [journal_cons_self] at part
      rcases List.suffix_cons_iff.1 part with here | part
      · obtain ⟨rfl, rfl⟩ := List.cons.inj here
        exact ⟨time, before, List.suffix_refl _, rfl⟩
      · obtain ⟨time, between, found, rest⟩ := ih part
        exact ⟨time, between, found.trans (List.suffix_cons ..), rest⟩
    · rw [journal_cons_of_ne same] at part
      obtain ⟨time, between, found, rest⟩ := ih part
      exact ⟨time, between, found.trans (List.suffix_cons ..), rest⟩

/-- Runs with their moments, the last one first. -/
inductive Run (first : Company σ Job α) : List (Moment σ) → Company σ Job α → Prop
  | start : Run first [] first
  | idle {moments : List (Moment σ)} {last : Company σ Job α} {thread : Nat} {rest : Script σ Job α}
      (earlier : Run first moments last) (idles : (last.scripts thread).Idles rest) :
      Run first moments (last.goOn thread rest last.state)
  | act {moments : List (Moment σ)} {last : Company σ Job α} {thread : Nat} {act : Act σ}
      {rest : Script σ Job α} (time : Nat) (earlier : Run first moments last)
      (does : (last.scripts thread).Does act rest) (fits : act.Fits time last.state)
      (inTime : ∀ moment ∈ moments, moment.time ≤ time) :
      Run first ({ time, thread, act } :: moments)
        (last.goOn thread rest (act.after last.state))

namespace Run

variable {first last : Company σ Job α} {moments : List (Moment σ)}

/-- Time never goes back. -/
theorem inOrder (run : Run first moments last) :
    moments.Pairwise fun later earlier => earlier.time ≤ later.time := by
  induction run with
  | start => exact .nil
  | idle _ _ ih => exact ih
  | act time _ _ _ inTime ih => exact List.pairwise_cons.2 ⟨inTime, ih⟩

/-- What a run went through first is a run. -/
theorem back {before : List (Moment σ)} (run : Run first moments last) (part : before <:+ moments) :
    ∃ there, Run first before there := by
  induction run with
  | start => exact ⟨first, List.suffix_nil.1 part ▸ .start⟩
  | idle _ _ ih => exact ih part
  | act time earlier does fits inTime ih =>
    rcases List.suffix_cons_iff.1 part with rfl | part
    · exact ⟨_, earlier.act time does fits inTime⟩
    · exact ih part

/-- A run that ends with a change is in the state that the change has left. -/
theorem state_of_changed {time thread : Nat} {found now : σ} {before : List (Moment σ)}
    (run : Run first ({ time, thread, act := .changed found now } :: before) last) : last.state = now := by
  generalize whole : ({ time, thread, act := .changed found now } : Moment σ) :: before = moments at run
  induction run with
  | start => cases whole
  | idle _ _ ih => exact ih whole
  | act time _ _ _ _ _ =>
    cases whole
    rfl

/-- Before each moment there is a run that leads up to it, and the act fits what is there then. -/
theorem upTo {before : List (Moment σ)} {moment : Moment σ} (run : Run first moments last)
    (part : moment :: before <:+ moments) :
    ∃ there, Run first before there ∧ moment.act.Fits moment.time there.state := by
  induction run with
  | start => exact absurd (List.suffix_nil.1 part) (List.cons_ne_nil _ _)
  | idle _ _ ih => exact ih part
  | @act moments there thread act rest time earlier _ fits _ ih =>
    rcases List.suffix_cons_iff.1 part with here | part
    · obtain ⟨rfl, rfl⟩ := List.cons.inj here
      exact ⟨there, earlier, fits⟩
    · exact ih part

/-- Where every script follows its rules, each act was open after the earlier ones of its script. -/
theorem opened {sees : σ → Prop} {may : Nat → Journal σ → Act σ → Prop}
    {wanted : Nat → Journal σ → α → Prop}
    (follows : ∀ thread, (first.scripts thread).Follows (.recorded sees (may thread)) (wanted thread) [])
    (start : sees first.state)
    (keeps : ∀ {thread past found now}, sees found → may thread past (.changed found now) → sees now)
    (run : Run first moments last) :
    sees last.state ∧ ∀ {moment before}, moment :: before <:+ moments →
      may moment.thread (journal moment.thread before) moment.act := by
  have along : sees last.state ∧
      (∀ thread, (last.scripts thread).Follows (.recorded sees (may thread)) (wanted thread)
        (journal thread moments)) ∧
      ∀ {moment before}, moment :: before <:+ moments →
        may moment.thread (journal moment.thread before) moment.act := by
    induction run with
    | start =>
      exact ⟨start, follows, fun part => absurd (List.suffix_nil.1 part) (List.cons_ne_nil _ _)⟩
    | @idle moments last other rest _ idles ih =>
      obtain ⟨seen, follows, opened⟩ := ih
      refine ⟨seen, fun thread => ?_, opened⟩
      by_cases same : thread = other
      · subst same
        rw [goOn_scripts_self]
        exact (follows thread).idles idles
      · rw [goOn_scripts_of_ne _ _ _ same]
        exact follows thread
    | @act moments last other act rest time _ does fits _ ih =>
      obtain ⟨seen, follows, opened⟩ := ih
      have found : act.Seen sees := by
        cases act with
        | asked => trivial
        | changed before now => exact (show before = last.state from fits) ▸ seen
      obtain ⟨isOpen, goesOn⟩ := (follows other).does does found
      refine ⟨?_, fun thread => ?_, fun {moment before} part => ?_⟩
      · cases act with
        | asked => exact seen
        | changed before now => exact keeps found isOpen
      · by_cases same : thread = other
        · subst same
          rw [goOn_scripts_self, journal_cons_self]
          exact goesOn
        · rw [goOn_scripts_of_ne _ _ _ same, journal_cons_of_ne same]
          exact follows thread
      · rcases List.suffix_cons_iff.1 part with here | part
        · obtain ⟨rfl, rfl⟩ := List.cons.inj here
          exact isOpen
        · exact opened part
  exact ⟨along.1, along.2.2⟩

end Run

/-! ## Computed runs -/

/-- Who acts next, and how long after the last moment. -/
structure Turn where
  pause : Nat := 0
  thread : Nat

/-- A script acts several times, as far as it can, the first time after a pause. -/
def turns (pause thread count : Nat) : List Turn :=
  { pause, thread } :: List.replicate count { thread }

/-- A run as far as it has been played. -/
structure Played (σ Job α : Type) where
  moments : List (Moment σ) := []
  time : Nat := 0
  company : Company σ Job α

/-- The answer to a question at a time. -/
def reply (world : Nat → (query : Query) → query.Reply) (time : Nat) : (query : Query) → query.Reply
  | .clock => time
  | query => world time query

/-- Lets a script act, if it can. -/
def Played.turn (world : Nat → (query : Query) → query.Reply) (played : Played σ Job α) (turn : Turn) :
    Played σ Job α :=
  let time := played.time + turn.pause
  let state := played.company.state
  match played.company.scripts turn.thread with
  | .done _ => { played with time }
  | .ask query next =>
    { moments := ⟨time, turn.thread, .asked query (reply world time query)⟩ :: played.moments
      time
      company := played.company.goOn turn.thread (next (reply world time query)) state }
  | .step ready change next =>
    if ready state then
      { moments := ⟨time, turn.thread, .changed state (change state)⟩ :: played.moments
        time
        company := played.company.goOn turn.thread (next state) (change state) }
    else { played with time }
  | .sleep _ _ next => { played with time, company := played.company.goOn turn.thread (next true) state }
  | .spawn _ next | .gather _ next =>
    { played with time, company := played.company.goOn turn.thread next state }

/-- Plays a schedule in a world that answers at every time. -/
def play (world : Nat → (query : Query) → query.Reply) (schedule : List Turn)
    (first : Company σ Job α) : Played σ Job α :=
  schedule.foldl (Played.turn world) { company := first }

theorem fits_reply (world : Nat → (query : Query) → query.Reply) (time : Nat) (state : σ)
    (query : Query) : (Act.asked query (reply world time query)).Fits time state := by
  cases query <;> trivial

/-- A turn of a script goes on with the run. -/
theorem Played.run_turn {first : Company σ Job α} (world : Nat → (query : Query) → query.Reply)
    {played : Played σ Job α} (turn : Turn)
    (run : Run first played.moments played.company ∧ ∀ moment ∈ played.moments, moment.time ≤ played.time) :
    Run first (played.turn world turn).moments (played.turn world turn).company ∧
      ∀ moment ∈ (played.turn world turn).moments, moment.time ≤ (played.turn world turn).time := by
  obtain ⟨run, inTime⟩ := run
  have later : ∀ moment ∈ played.moments, moment.time ≤ played.time + turn.pause :=
    fun moment mem => Nat.le_trans (inTime moment mem) (Nat.le_add_right _ _)
  unfold Played.turn
  dsimp only
  split
  · exact ⟨run, later⟩
  · rename_i query next here
    have does := Script.Does.ask query next (reply world (played.time + turn.pause) query)
    rw [← here] at does
    exact ⟨run.act _ does (fits_reply ..) later, List.forall_mem_cons.2 ⟨Nat.le_refl _, later⟩⟩
  · rename_i ready change next here
    split
    · rename_i permitted
      have does := Script.Does.step change next permitted
      rw [← here] at does
      exact ⟨run.act _ does rfl later, List.forall_mem_cons.2 ⟨Nat.le_refl _, later⟩⟩
    · exact ⟨run, later⟩
  · rename_i millis stopped next here
    exact ⟨run.idle (here ▸ .sleep millis stopped next true), later⟩
  · rename_i job next here
    exact ⟨run.idle (here ▸ .spawn job next), later⟩
  · rename_i jobs next here
    exact ⟨run.idle (here ▸ .gather jobs next), later⟩

/-- Whatever is played is a run. -/
theorem run_play (world : Nat → (query : Query) → query.Reply) (schedule : List Turn)
    (first : Company σ Job α) :
    Run first (play world schedule first).moments (play world schedule first).company := by
  have along (played : Played σ Job α)
      (run : Run first played.moments played.company ∧
        ∀ moment ∈ played.moments, moment.time ≤ played.time) :
      Run first (schedule.foldl (Played.turn world) played).moments
        (schedule.foldl (Played.turn world) played).company := by
    induction schedule generalizing played with
    | nil => exact run.1
    | cons turn rest ih => exact ih _ (played.run_turn world turn run)
  exact along { company := first } ⟨.start, by simp⟩

/-- In a played run the world has answered every question. -/
theorem play_told (world : Nat → (query : Query) → query.Reply) (schedule : List Turn)
    (first : Company σ Job α) :
    ∀ moment ∈ (play world schedule first).moments, moment.act.Told (reply world moment.time) := by
  have along (played : Played σ Job α)
      (told : ∀ moment ∈ played.moments, moment.act.Told (reply world moment.time)) :
      ∀ moment ∈ (schedule.foldl (Played.turn world) played).moments,
        moment.act.Told (reply world moment.time) := by
    induction schedule generalizing played with
    | nil => exact told
    | cons turn rest ih =>
      refine ih _ ?_
      unfold Played.turn
      dsimp only
      split
      · exact told
      · exact List.forall_mem_cons.2 ⟨rfl, told⟩
      · split
        · exact List.forall_mem_cons.2 ⟨trivial, told⟩
        · exact told
      · exact told
      · exact told
      · exact told
  exact along { company := first } (by simp)

end Company

end LeaseFleet
