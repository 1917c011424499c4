import Mathlib.Data.Nat.Find
import LeaseFleet.Script.Basic

/-!
# Scripts in time

How long the actions of one script last, in whole milliseconds, while everything else goes on around it. The
course of everything else says which states the place of the script has at an instant and how questions are
served, and both are left open (`Course`). Clocks and random numbers are there at once. A change waits for a
state that permits it. A sleep ends when its time is over, or at the instant of a state that says stop
(`Course.Rests`). `Script.Lasts` follows a script from one instant to another one and shows what it did when.

If a place is told to stop at some instant, or never, and does not go back on it (`Course.Stops`), then each
sleep that this instant falls into is cut there.
-/

namespace LeaseFleet

/-- What goes on around a script. -/
structure Course (σ Job : Type) where
  /-- The states that the place has during an instant. -/
  states : Nat → σ → Prop
  inhabited : ∀ instant, ∃ state, states instant state
  /-- How a question that is asked at an instant is answered at another one. -/
  serves : Nat → (query : Query) → query.Reply → Nat → Prop
  /-- When jobs that begin at an instant have all ended. -/
  gathers : Nat → List Job → Nat → Prop

/-- What a script does in its time: a question is asked and answered, a state is found and changed, and it
sleeps for some milliseconds or less. -/
inductive TimedAct (σ : Type) where
  | asked (since : Nat) (query : Query) (reply : query.Reply) (till : Nat)
  | changed (instant : Nat) (found now : σ)
  | slept (since millis till : Nat) (complete : Bool)

namespace Course

variable {σ Job : Type} {course : Course σ Job} {stopped : σ → Bool} {stop : Option Nat}
  {since millis till : Nat} {complete : Bool}

/-! ## Questions -/

/-- A question is answered. -/
inductive Answers (course : Course σ Job) : Nat → (query : Query) → query.Reply → Nat → Prop
  | clock (instant : Nat) : Answers course instant .clock instant instant
  | draw {low high number : Nat} (instant : Nat) (atLeast : low ≤ number) (atMost : number ≤ high) :
      Answers course instant (.draw low high) number instant
  | other {since till : Nat} {query : Query} {reply : query.Reply} (notClock : query ≠ .clock)
      (notDraw : ∀ low high, query ≠ .draw low high) (later : since ≤ till)
      (serves : course.serves since query reply till) : Answers course since query reply till

theorem answers_clock {time : Nat} :
    course.Answers since .clock time till ↔ time = since ∧ till = since := by
  constructor
  · intro answers
    cases answers with
    | clock => exact ⟨rfl, rfl⟩
    | other notClock => exact absurd rfl notClock
  · rintro ⟨rfl, rfl⟩
    exact .clock _

theorem answers_draw {low high number : Nat} :
    course.Answers since (.draw low high) number till ↔ low ≤ number ∧ number ≤ high ∧ till = since := by
  constructor
  · intro answers
    cases answers with
    | draw _ atLeast atMost => exact ⟨atLeast, atMost, rfl⟩
    | other _ notDraw => exact absurd rfl (notDraw low high)
  · rintro ⟨atLeast, atMost, rfl⟩
    exact .draw _ atLeast atMost

theorem answers_store {call : StoreCall} {reply : call.Reply} :
    course.Answers since (.store call) reply till ↔
      since ≤ till ∧ course.serves since (.store call) reply till := by
  constructor
  · intro answers
    cases answers with
    | other _ _ later serves => exact ⟨later, serves⟩
  · rintro ⟨later, serves⟩
    exact .other (by simp) (by simp) later serves

/-! ## Sleeping -/

/-- A sleep that begins at an instant ends at another one, either after its whole time or cut short. -/
structure Rests (course : Course σ Job) (stopped : σ → Bool) (since millis till : Nat) (complete : Bool) :
    Prop where
  later : since ≤ till
  atMost : till ≤ since + millis
  unstopped : ∀ instant, since ≤ instant → instant < till →
    ∀ state, course.states instant state → stopped state = false
  whole : complete = true →
    till = since + millis ∧ ∃ state, course.states since state ∧ stopped state = false
  cut : complete = false → ∃ state, course.states till state ∧ stopped state = true

/-- A sleep always comes to an end. -/
theorem exists_rests (course : Course σ Job) (stopped : σ → Bool) (since millis : Nat) :
    ∃ till complete, course.Rests stopped since millis till complete := by
  classical
  let Stopping (instant : Nat) : Prop :=
    since ≤ instant ∧ ∃ state, course.states instant state ∧ stopped state = true
  have unstopped {till : Nat} (none : ∀ instant, instant < till → ¬Stopping instant) (instant : Nat)
      (begun : since ≤ instant) (before : instant < till) (state : σ)
      (here : course.states instant state) : stopped state = false :=
    Bool.eq_false_iff.2 fun isStopped => none instant before ⟨begun, state, here, isStopped⟩
  by_cases early : ∃ instant, Stopping instant ∧ instant ≤ since + millis
  case pos =>
    -- the first of these instants cuts the sleep
    have some : ∃ instant, Stopping instant := early.imp fun _ => And.left
    obtain ⟨first, stopping, soon⟩ := early
    obtain ⟨begun, state, here, isStopped⟩ := Nat.find_spec some
    refine ⟨Nat.find some, false, begun, ?_, unstopped fun _ => Nat.find_min some, by simp,
      fun _ => ⟨state, here, isStopped⟩⟩
    exact Nat.le_trans (Nat.find_min' some stopping) soon
  case neg =>
    have none (instant : Nat) (soon : instant ≤ since + millis) : ¬Stopping instant :=
      fun stopping => early ⟨instant, stopping, soon⟩
    obtain ⟨state, here⟩ := course.inhabited since
    refine ⟨since + millis, true, Nat.le_add_right _ _, Nat.le_refl _,
      unstopped fun instant before => none instant (Nat.le_of_lt before),
      fun _ => ⟨rfl, state, here, ?_⟩, by simp⟩
    exact Bool.eq_false_iff.2 fun isStopped =>
      none since (Nat.le_add_right _ _) ⟨Nat.le_refl _, state, here, isStopped⟩

/-- The place is told to stop at an instant, if at all, and stays so. -/
structure Stops (course : Course σ Job) (stopped : σ → Bool) (stop : Option Nat) : Prop where
  before : ∀ instant state, course.states instant state → stopped state = true →
    ∃ signal ∈ stop, signal ≤ instant
  signalled : ∀ signal ∈ stop, ∃ state, course.states signal state ∧ stopped state = true
  after : ∀ signal ∈ stop, ∀ instant state, signal < instant → course.states instant state →
    stopped state = true

/-- A sleep is over before the place is told to stop. -/
theorem Rests.le_signal (rests : course.Rests stopped since millis till true)
    (stops : course.Stops stopped stop) : till = since + millis ∧ ∀ signal ∈ stop, till ≤ signal := by
  obtain ⟨rfl, state, here, unstopped⟩ := rests.whole rfl
  refine ⟨rfl, fun signal told => ?_⟩
  by_contra early
  have soon : signal < since + millis := by omega
  by_cases begun : since ≤ signal
  case pos =>
    obtain ⟨other, there, isStopped⟩ := stops.signalled signal told
    exact Bool.eq_false_iff.1 (rests.unstopped signal begun soon other there) isStopped
  case neg =>
    exact Bool.eq_false_iff.1 unstopped (stops.after signal told since state (by omega) here)

/-- A sleep is cut where the place is told to stop, at once if that was before. -/
theorem Rests.eq_signal (rests : course.Rests stopped since millis till false)
    (stops : course.Stops stopped stop) :
    ∃ signal ∈ stop, signal ≤ since + millis ∧ till = max since signal := by
  obtain ⟨state, here, isStopped⟩ := rests.cut rfl
  obtain ⟨signal, told, early⟩ := stops.before till state here isStopped
  refine ⟨signal, told, Nat.le_trans early rests.atMost, ?_⟩
  have later := rests.later
  by_contra differs
  have late : max since signal < till := by omega
  have unstopped := rests.unstopped (max since signal) (Nat.le_max_left ..) late
  by_cases begun : signal < since
  case pos =>
    obtain ⟨other, there⟩ := course.inhabited since
    rw [Nat.max_eq_left (Nat.le_of_lt begun)] at unstopped
    exact Bool.eq_false_iff.1 (unstopped other there) (stops.after signal told since other begun there)
  case neg =>
    obtain ⟨other, there, isStopped⟩ := stops.signalled signal told
    rw [Nat.max_eq_right (Nat.not_lt.1 begun)] at unstopped
    exact Bool.eq_false_iff.1 (unstopped other there) isStopped

end Course

/-! ## A script -/

namespace Script

variable {σ Job α β : Type} {course : Course σ Job} {since till : Nat} {acts : List (TimedAct σ)}

/-- A script goes on from one instant to another one and ends with a value. -/
inductive Lasts (course : Course σ Job) : Script σ Job α → Nat → List (TimedAct σ) → Nat → α → Prop
  | done (value : α) (instant : Nat) : Lasts course (.done value) instant [] instant value
  | ask {query : Query} {next : query.Reply → Script σ Job α} {since between till : Nat}
      {reply : query.Reply} {acts : List (TimedAct σ)} {value : α}
      (answers : course.Answers since query reply between)
      (rest : Lasts course (next reply) between acts till value) :
      Lasts course (.ask query next) since (.asked since query reply between :: acts) till value
  | step {ready : σ → Bool} {change : σ → σ} {next : σ → Script σ Job α} {since between till : Nat}
      {found : σ} {acts : List (TimedAct σ)} {value : α} (later : since ≤ between)
      (waits : ∀ instant, since ≤ instant → instant < between →
        ∀ state, course.states instant state → ready state = false)
      (here : course.states between found) (permitted : ready found = true)
      (left : course.states between (change found))
      (rest : Lasts course (next found) between acts till value) :
      Lasts course (.step ready change next) since (.changed between found (change found) :: acts) till
        value
  | sleep {millis : Nat} {stopped : σ → Bool} {next : Bool → Script σ Job α} {since between till : Nat}
      {complete : Bool} {acts : List (TimedAct σ)} {value : α}
      (rests : course.Rests stopped since millis between complete)
      (rest : Lasts course (next complete) between acts till value) :
      Lasts course (.sleep millis stopped next) since (.slept since millis between complete :: acts) till
        value
  | spawn {job : Job} {next : Script σ Job α} {since till : Nat} {acts : List (TimedAct σ)} {value : α}
      (rest : Lasts course next since acts till value) :
      Lasts course (.spawn job next) since acts till value
  | gather {jobs : List Job} {next : Script σ Job α} {since between till : Nat} {acts : List (TimedAct σ)}
      {value : α} (later : since ≤ between) (ended : course.gathers since jobs between)
      (rest : Lasts course next between acts till value) :
      Lasts course (.gather jobs next) since acts till value

theorem lasts_done {value wanted : α} :
    (Script.done value).Lasts course since acts till wanted ↔
      acts = [] ∧ till = since ∧ wanted = value := by
  constructor
  · intro lasts
    cases lasts
    exact ⟨rfl, rfl, rfl⟩
  · rintro ⟨rfl, rfl, rfl⟩
    exact .done ..

theorem lasts_bind {script : Script σ Job α} {following : α → Script σ Job β} {value : β} :
    (script.bind following).Lasts course since acts till value ↔
      ∃ first between middle last, script.Lasts course since first between middle ∧
        (following middle).Lasts course between last till value ∧ acts = first ++ last := by
  constructor
  · intro lasts
    induction script generalizing since acts with
    | done middle => exact ⟨[], since, middle, acts, .done .., lasts, rfl⟩
    | ask query next ih =>
      cases lasts with
      | ask answers rest =>
        obtain ⟨first, between, middle, last, begins, follows, rfl⟩ := ih _ rest
        exact ⟨_, between, middle, last, .ask answers begins, follows, rfl⟩
    | step ready change next ih =>
      cases lasts with
      | step later waits here permitted left rest =>
        obtain ⟨first, between, middle, last, begins, follows, rfl⟩ := ih _ rest
        exact ⟨_, between, middle, last, .step later waits here permitted left begins, follows, rfl⟩
    | sleep millis stopped next ih =>
      cases lasts with
      | sleep rests rest =>
        obtain ⟨first, between, middle, last, begins, follows, rfl⟩ := ih _ rest
        exact ⟨_, between, middle, last, .sleep rests begins, follows, rfl⟩
    | spawn job next ih =>
      cases lasts with
      | spawn rest =>
        obtain ⟨first, between, middle, last, begins, follows, rfl⟩ := ih rest
        exact ⟨first, between, middle, last, .spawn begins, follows, rfl⟩
    | gather jobs next ih =>
      cases lasts with
      | gather later ended rest =>
        obtain ⟨first, between, middle, last, begins, follows, rfl⟩ := ih rest
        exact ⟨first, between, middle, last, .gather later ended begins, follows, rfl⟩
  · rintro ⟨first, between, middle, last, begins, follows, rfl⟩
    induction begins with
    | done => exact follows
    | ask answers _ ih => exact .ask answers (ih follows)
    | step later waits here permitted left _ ih => exact .step later waits here permitted left (ih follows)
    | sleep rests _ ih => exact .sleep rests (ih follows)
    | spawn _ ih => exact .spawn (ih follows)
    | gather later ended _ ih => exact .gather later ended (ih follows)

theorem lasts_query {question : Query} {next : question.Reply → Script σ Job α} {value : α} :
    ((Script.query question).bind next).Lasts course since acts till value ↔
      ∃ reply between rest, course.Answers since question reply between ∧
        (next reply).Lasts course between rest till value ∧
          acts = .asked since question reply between :: rest := by
  constructor
  · intro lasts
    cases lasts with
    | ask answers rest => exact ⟨_, _, _, answers, rest, rfl⟩
  · rintro ⟨reply, between, rest, answers, follows, rfl⟩
    exact .ask answers follows

theorem lasts_sleep {millis : Nat} {stopped : σ → Bool} {next : Bool → Script σ Job α} {value : α} :
    ((Script.sleep millis stopped .done).bind next).Lasts course since acts till value ↔
      ∃ complete between rest, course.Rests stopped since millis between complete ∧
        (next complete).Lasts course between rest till value ∧
          acts = .slept since millis between complete :: rest := by
  constructor
  · intro lasts
    cases lasts with
    | sleep rests rest => exact ⟨_, _, _, rests, rest, rfl⟩
  · rintro ⟨complete, between, rest, rests, follows, rfl⟩
    exact .sleep rests follows

/-- A look finds a state at once. -/
theorem lasts_look {next : σ → Script σ Job α} {value : α} :
    (Script.look.bind next).Lasts course since acts till value ↔
      ∃ state rest, course.states since state ∧ (next state).Lasts course since rest till value ∧
        acts = .changed since state state :: rest := by
  constructor
  · intro lasts
    cases lasts with
    | step later waits here _ _ rest =>
      obtain rfl | late := Nat.eq_or_lt_of_le later
      · exact ⟨_, _, here, rest, rfl⟩
      · obtain ⟨state, there⟩ := course.inhabited since
        cases waits since (Nat.le_refl _) late state there
  · rintro ⟨state, rest, here, follows, rfl⟩
    exact .step (Nat.le_refl _) (fun instant begun before => absurd begun (Nat.not_le.2 before)) here rfl
      here follows

/-- Time does not go back. -/
theorem Lasts.le {script : Script σ Job α} {value : α} (lasts : script.Lasts course since acts till value) :
    since ≤ till := by
  induction lasts with
  | done => exact Nat.le_refl _
  | ask answers _ ih =>
    cases answers with
    | clock | draw => exact ih
    | other _ _ later => exact Nat.le_trans later ih
  | step later _ _ _ _ _ ih | gather later _ _ ih => exact Nat.le_trans later ih
  | sleep rests _ ih => exact Nat.le_trans rests.later ih
  | spawn _ ih => exact ih

end Script

end LeaseFleet
