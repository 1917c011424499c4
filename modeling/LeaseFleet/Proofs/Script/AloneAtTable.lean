import LeaseFleet.Proofs.Script.Protocol
import Mathlib.Logic.Relation

/-!
# Scripts that are alone with the table

A script that is the only one to write the lease table, over a stream whose listing stands. The
store carries out a call or, where failures are allowed for, refuses it and changes nothing. What a
script ensures (`Ensures`) is worked out along its actions: it holds at every table that the script
comes to (`Ensures.comes`), and a script that ensures anything gets to an end (`Ensures.exists_end`).
-/

namespace LeaseFleet

/-- What a script meets that has the table for itself. -/
structure Surroundings where
  /-- What every listing of shards shows. -/
  listed : List ShardDescription
  /-- Whether calls of the store and listings of shards may fail. -/
  mayFail : Prop

namespace Surroundings

/-- How a question may be answered, and the table after it. -/
inductive Replies (around : Surroundings) (table : LeaseTable) :
    (query : Query) → query.Reply → LeaseTable → Prop
  | stored (call : StoreCall) :
      Replies around table (.store call) (table.perform call).1 (table.perform call).2
  /-- A failed call has changed nothing. -/
  | failed (may : around.mayFail) (call : StoreCall) (error : StoreError) :
      Replies around table (.store call) (call.failed error) table
  | listed (config : StreamConfig) : Replies around table (.shards config) (.ok around.listed) table
  | unlisted (may : around.mayFail) (config : StreamConfig) (reason : String) :
      Replies around table (.shards config) (.error reason) table
  | other {query : Query} (notCall : ∀ call, query ≠ .store call)
      (notListing : ∀ config, query ≠ .shards config) (reply : query.Reply) :
      Replies around table query reply table

/-- There is an answer to every question. -/
theorem Replies.exists (around : Surroundings) (table : LeaseTable) (query : Query) :
    ∃ reply after, around.Replies table query reply after := by
  have other {query : Query} (notCall : ∀ call, query ≠ .store call)
      (notListing : ∀ config, query ≠ .shards config) (reply : query.Reply) :
      ∃ reply after, around.Replies table query reply after := ⟨_, _, .other notCall notListing reply⟩
  cases query with
  | store call => exact ⟨_, _, .stored call⟩
  | shards config => exact ⟨_, _, .listed config⟩
  | summaries => exact other (by simp) (by simp) (.ok [])
  | publish => exact other (by simp) (by simp) (.ok ())
  | trackedStreams => exact other (by simp) (by simp) []
  | deletionStrategy => exact other (by simp) (by simp) .keep
  | orphanPosition => exact other (by simp) (by simp) .latest
  | token => exact other (by simp) (by simp) ⟨0⟩
  | record => exact other (by simp) (by simp) ()
  | clock | epoch | draw => exact other (by simp) (by simp) (0 : Nat)

end Surroundings

/-- A call that is answered by an error has changed nothing. -/
theorem LeaseTable.perform_of_error {table : LeaseTable} {call : StoreCall} {error : StoreError}
    (refused : (table.perform call).1 = .error error) : (table.perform call).2 = table := by
  cases call with
  | list | isEmpty | delete | update => cases refused
  | create lease =>
    rcases table.create_cases lease with ⟨same, _⟩ | ⟨_, created⟩
    · exact same
    · have answered : (table.perform (.create lease)).1 = .ok true := by simp [perform, created]
      cases answered.symm.trans refused

namespace Script

variable {σ Job α β : Type} {around : Surroundings}

/-- One action of a script, with the table before and after it. -/
inductive Advances (around : Surroundings) : Script σ Job α × LeaseTable → Script σ Job α × LeaseTable → Prop
  | ask {query : Query} {next : query.Reply → Script σ Job α} {table after : LeaseTable}
      {reply : query.Reply} (answers : around.Replies table query reply after) :
      Advances around (.ask query next, table) (next reply, after)
  | step {ready : σ → Bool} {change : σ → σ} {next : σ → Script σ Job α} {table : LeaseTable} {found : σ}
      (permitted : ready found = true) : Advances around (.step ready change next, table) (next found, table)
  | sleep {millis : Nat} {stopped : σ → Bool} {next : Bool → Script σ Job α} {table : LeaseTable}
      (complete : Bool) : Advances around (.sleep millis stopped next, table) (next complete, table)
  | spawn {job : Job} {next : Script σ Job α} {table : LeaseTable} :
      Advances around (.spawn job next, table) (next, table)
  | gather {jobs : List Job} {next : Script σ Job α} {table : LeaseTable} :
      Advances around (.gather jobs next, table) (next, table)

/-- Any number of actions. -/
abbrev Comes (around : Surroundings) :
    Script σ Job α × LeaseTable → Script σ Job α × LeaseTable → Prop :=
  Relation.ReflTransGen (Advances around)

/-- The table at some point of the script. -/
def Passes (around : Surroundings) (script : Script σ Job α) (first now : LeaseTable) : Prop :=
  ∃ rest, Comes around (script, first) (rest, now)

/-- The script ends with the value and leaves the table. -/
def Ends (around : Surroundings) (script : Script σ Job α) (first : LeaseTable) (value : α)
    (last : LeaseTable) : Prop :=
  Comes around (script, first) (.done value, last)

theorem Passes.after {script rest : Script σ Job α} {first between now : LeaseTable}
    (comes : Comes around (script, first) (rest, between)) (passes : rest.Passes around between now) :
    script.Passes around first now := by
  obtain ⟨last, comesOn⟩ := passes
  exact ⟨last, .trans comes comesOn⟩

/-- Whatever happens, the tables along the way are as they always should be, value and table at the
end are as wanted, and nothing waits for a state that does not exist. -/
def Ensures (around : Surroundings) (always : LeaseTable → Prop) (wanted : α → LeaseTable → Prop) :
    Script σ Job α → LeaseTable → Prop
  | done value, table => always table ∧ wanted value table
  | ask query next, table => always table ∧ ∀ reply after, around.Replies table query reply after →
      (next reply).Ensures around always wanted after
  | step ready _ next, table => always table ∧ (∃ found, ready found = true) ∧
      ∀ found, ready found = true → (next found).Ensures around always wanted table
  | sleep _ _ next, table => always table ∧ ∀ complete, (next complete).Ensures around always wanted table
  | spawn _ next, table | gather _ next, table => always table ∧ next.Ensures around always wanted table

section

variable {always : LeaseTable → Prop} {wanted : α → LeaseTable → Prop} {script : Script σ Job α}
  {table : LeaseTable}

theorem Ensures.now (ensures : script.Ensures around always wanted table) : always table := by
  cases script <;> exact ensures.1

theorem ensures_bind {wanted : β → LeaseTable → Prop} {following : α → Script σ Job β} :
    (script.bind following).Ensures around always wanted table ↔
      script.Ensures around always (fun value => (following value).Ensures around always wanted) table := by
  induction script generalizing table with
  | done value => exact ⟨fun ensures => ⟨ensures.now, ensures⟩, And.right⟩
  | ask query next ih => simp only [bind, Ensures, ih]
  | step ready change next ih => simp only [bind, Ensures, ih]
  | sleep millis stopped next ih => simp only [bind, Ensures, ih]
  | spawn job next ih => simp only [bind, Ensures, ih]
  | gather jobs next ih => simp only [bind, Ensures, ih]

theorem query_ensures {wanted : β → LeaseTable → Prop} {question : Query}
    {next : question.Reply → Script σ Job β} (now : always table)
    (rest : ∀ reply after, around.Replies table question reply after →
      (next reply).Ensures around always wanted after) :
    ((Script.query question).bind next).Ensures around always wanted table :=
  ⟨now, rest⟩

/-- A measurement leaves the table as it is. -/
theorem record_ensures {wanted : β → LeaseTable → Prop} {measurement : Measurement}
    {next : Unit → Script σ Job β} (rest : (next ()).Ensures around always wanted table) :
    ((Script.record measurement).bind next).Ensures around always wanted table := by
  refine ⟨rest.now, fun reply after answers => ?_⟩
  cases answers
  exact rest

theorem Ensures.advances {rest : Script σ Job α} {after : LeaseTable}
    (ensures : script.Ensures around always wanted table)
    (advances : Advances around (script, table) (rest, after)) :
    rest.Ensures around always wanted after := by
  cases advances with
  | ask answers => exact ensures.2 _ _ answers
  | step permitted => exact ensures.2.2 _ permitted
  | sleep complete => exact ensures.2 complete
  | spawn => exact ensures.2
  | gather => exact ensures.2

/-- What is ensured at first is ensured at every later point. -/
theorem Ensures.comes {rest : Script σ Job α} {after : LeaseTable}
    (ensures : script.Ensures around always wanted table)
    (comes : Comes around (script, table) (rest, after)) :
    rest.Ensures around always wanted after := by
  suffices along : ∀ point, Comes around (script, table) point →
      point.1.Ensures around always wanted point.2 from along _ comes
  intro point comes
  induction comes with
  | refl => exact ensures
  | tail _ advances ih => exact ih.advances advances

theorem Ensures.passes {now : LeaseTable} (ensures : script.Ensures around always wanted table)
    (passes : script.Passes around table now) : always now := by
  obtain ⟨rest, comes⟩ := passes
  exact (ensures.comes comes).now

theorem Ensures.ends {value : α} {last : LeaseTable}
    (ensures : script.Ensures around always wanted table)
    (ends : script.Ends around table value last) : wanted value last :=
  (ensures.comes ends).2

/-- A script that ensures something can get to its end. -/
theorem Ensures.exists_end (ensures : script.Ensures around always wanted table) :
    ∃ value last, script.Ends around table value last := by
  induction script generalizing table with
  | done value => exact ⟨value, table, .refl⟩
  | ask query next ih =>
    obtain ⟨reply, after, answers⟩ := Surroundings.Replies.exists around table query
    obtain ⟨value, last, ends⟩ := ih reply (ensures.2 reply after answers)
    exact ⟨value, last, .head (.ask answers) ends⟩
  | step ready change next ih =>
    obtain ⟨_, ⟨found, permitted⟩, rest⟩ := ensures
    obtain ⟨value, last, ends⟩ := ih found (rest found permitted)
    exact ⟨value, last, .head (.step permitted) ends⟩
  | sleep millis stopped next ih =>
    obtain ⟨value, last, ends⟩ := ih true (ensures.2 true)
    exact ⟨value, last, .head (.sleep true) ends⟩
  | spawn job next ih =>
    obtain ⟨value, last, ends⟩ := ih ensures.2
    exact ⟨value, last, .head .spawn ends⟩
  | gather jobs next ih =>
    obtain ⟨value, last, ends⟩ := ih ensures.2
    exact ⟨value, last, .head .gather ends⟩

end

end Script

/-! ## Repeated store calls -/

namespace RetryPolicy

variable {σ Job α : Type} {around : Surroundings} {table : LeaseTable} {call : StoreCall}

/-- A repeated store call: once carried out it ends with the answer, and all else that it may end
with is an error, which leaves the table as it was. -/
theorem store_ensures {always : LeaseTable → Prop}
    {wanted : Except WorkerError call.Answer → LeaseTable → Prop} (policy : RetryPolicy)
    (stopped : σ → Bool) (before : always table) (after : always (table.perform call).2)
    (answered : ∀ answer, (table.perform call).1 = .ok answer →
      wanted (.ok answer) (table.perform call).2)
    (failed : (around.mayFail ∨ ∃ error, (table.perform call).1 = .error error) →
      ∀ reason, wanted (.error reason) table) :
    (policy.store stopped call : Script σ Job _).Ensures around always wanted table := by
  -- a single attempt, whatever follows it
  have attempt {next : call.Reply → Script σ Job (Except WorkerError call.Answer)}
      (good : ∀ answer, (table.perform call).1 = .ok answer →
        (next (.ok answer)).Ensures around always wanted (table.perform call).2)
      (bad : (around.mayFail ∨ ∃ error, (table.perform call).1 = .error error) →
        ∀ error, (next (.error error)).Ensures around always wanted table) :
      (Script.ask (.store call) next).Ensures around always wanted table := by
    refine ⟨before, fun reply now answers => ?_⟩
    cases answers with
    | stored =>
      cases outcome : (table.perform call).1 with
      | ok answer => exact good answer outcome
      | error error =>
        rw [LeaseTable.perform_of_error outcome]
        exact bad (.inr ⟨error, outcome⟩) error
    | failed may _ error => exact bad (.inl may) error
    | other notCall => exact absurd rfl (notCall call)
  suffices attempts : ∀ left earlier, (policy.attempts stopped
      (do return (← Script.call call).mapError WorkerError.store) left earlier :
        Script σ Job _).Ensures around always wanted table from attempts _ _
  intro left
  induction left with
  | zero =>
    intro earlier
    exact attempt (fun answer same => ⟨after, answered answer same⟩)
      fun cause error => ⟨before, failed cause _⟩
  | succ left ih =>
    intro earlier
    refine attempt (fun answer same => ⟨after, answered answer same⟩) fun cause error => ?_
    show ((if (WorkerError.store error).isRetryable then _ else _ :
      Script σ Job (Except WorkerError call.Answer))).Ensures _ _ _ _
    split
    · refine ⟨before, fun pause now answers => ?_⟩
      cases answers with
      | other =>
        refine ⟨before, fun complete => ?_⟩
        cases complete with
        | true => exact ih (earlier + 1)
        | false => exact ⟨before, failed cause _⟩
    · exact ⟨before, failed cause _⟩

/-- A repeated store call may be carried out at once. -/
theorem store_comes {answer : call.Answer} {next : Except WorkerError call.Answer → Script σ Job α}
    (policy : RetryPolicy) (stopped : σ → Bool) (answered : (table.perform call).1 = .ok answer) :
    Script.Comes around ((policy.store stopped call : Script σ Job _).bind next, table)
      (next (.ok answer), (table.perform call).2) := by
  have carriedOut : around.Replies table (.store call) (.ok answer) (table.perform call).2 :=
    answered ▸ .stored call
  unfold store run
  cases policy.maxAttempts - 1 with
  | zero => exact .single (.ask carriedOut)
  | succ left => exact .single (.ask carriedOut)

end RetryPolicy

end LeaseFleet
