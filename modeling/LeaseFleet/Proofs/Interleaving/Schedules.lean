import LeaseFleet.Proofs.Interleaving.Basic

/-!
# Rehearsed runs

A run that is computed from a schedule: which thread acts next, which job is begun, which call
somebody else makes. A choice that is not possible when its turn comes is passed over, so every
schedule gives a run (`run_play`).
-/

namespace LeaseFleet.Interleaving

/-- What happens next. -/
inductive Choice (Job : Type) where
  /-- A thread does its next action. -/
  | act (id : Nat)
  /-- The store call of a thread fails. -/
  | refuse (id : Nat) (error : StoreError)
  | begin (place : String) (job : Job)
  /-- Somebody else lists all leases. -/
  | list
  /-- Somebody else moves a lease. -/
  | move (move : LeaseMove)

/-- A thread does several actions, as far as it can. -/
def acts {Job : Type} (id count : Nat) : List (Choice Job) := List.replicate count (.act id)

/-- The answer to a question of which the run does not depend much. -/
def plainReply : (query : Query) → query.Reply
  | .store call => call.failed (.unknown "")
  | .summaries => .ok []
  | .publish _ => .ok ()
  | .shards _ => .ok []
  | .trackedStreams => []
  | .deletionStrategy => .keep
  | .orphanPosition => .latest
  | .clock | .epoch => 0
  | .token => ⟨0⟩
  | .draw low _ => low
  | .record _ => ()

variable {σ Job Result : Type}

/-- The answer to a question. -/
def answer (s : Interleaving σ Job Result) : (query : Query) → query.Reply × Interleaving σ Job Result
  | .store call => ((s.table.perform call).1, { s with table := (s.table.perform call).2 })
  | .token => (⟨s.tokens⟩, { s with tokens := s.tokens + 1 })
  | query => (plainReply query, s)

/-- Does the next action of a thread, if it can do one. -/
def act? (behaviour : Machine.Behaviour σ Job Result) (s : Interleaving σ Job Result) (id : Nat)
    (thread : Thread σ Job Result) : Option (Event Job Result × Interleaving σ Job Result) :=
  match thread.script with
  | .done (.inl job) => some (.inner, s.goOn id { thread with job, script := behaviour job })
  | .done (.inr result) => some (.ended thread.place thread.job result, s.drop id)
  | .ask query next =>
    let (reply, answered) := s.answer query
    some (.ofAnswer thread.place thread.job query reply,
      answered.goOn id { thread with script := next reply })
  | .step permits change next =>
    match s.places.get? thread.place with
    | some state =>
      if permits state then
        some (.inner, (s.setPlace thread.place (change state)).goOn id
          { thread with script := next state })
      else none
    | none => none
  | .sleep _ _ next =>
    if s.places.contains thread.place then
      some (.inner, s.goOn id { thread with script := next true })
    else none
  | .spawn job next =>
    some (.inner, (s.goOn id { thread with script := next }).launch behaviour thread.place job)
  | .gather jobs next =>
    some (.inner, (s.goOn id { thread with script := next, pending := s.nextIds jobs }).launchAll
      behaviour thread.place jobs)

/-- The thread of a number, if it need not wait for others. -/
def ready? (s : Interleaving σ Job Result) (id : Nat) : Option (Thread σ Job Result) :=
  (s.threads.get? id).filter fun thread => thread.pending.all fun other => !s.threads.contains other

/-- Somebody else calls the store. -/
def call (s : Interleaving σ Job Result) (call : StoreCall) :
    Event Job Result × Interleaving σ Job Result :=
  (.outside call (s.table.perform call).1,
    { s with table := (s.table.perform call).2 }.keepCopies call (s.table.perform call).1)

/-- Does what was chosen, if that is possible. -/
def choose? (behaviour : Machine.Behaviour σ Job Result) (asked : Job → Prop) [DecidablePred asked]
    (s : Interleaving σ Job Result) :
    Choice Job → Option (Event Job Result × Interleaving σ Job Result)
  | .act id => (s.ready? id).bind (s.act? behaviour id)
  | .refuse id error =>
    match s.ready? id with
    | some thread =>
      match thread.script with
      | .ask (.store call) next =>
        some (.called thread.place thread.job call (call.failed error),
          s.goOn id { thread with script := next (call.failed error) })
      | _ => none
    | none => none
  | .begin place job =>
    if s.places.contains place ∧ asked job then
      some (.begun place job, s.launch behaviour place job)
    else none
  | .list => some (s.call .list)
  | .move move =>
    if move.lease ∈ s.copies then
      some (s.call (.update (move.lease.transferredTo (some move.target)) move.lease.counter))
    else none

/-- Plays a schedule. -/
def play (behaviour : Machine.Behaviour σ Job Result) (asked : Job → Prop) [DecidablePred asked] :
    List (Choice Job) → List (Event Job Result) × Interleaving σ Job Result →
      List (Event Job Result) × Interleaving σ Job Result
  | [], played => played
  | choice :: rest, (trace, s) =>
    match s.choose? behaviour asked choice with
    | some (event, after) => play behaviour asked rest (trace ++ [event], after)
    | none => play behaviour asked rest (trace, s)

variable {behaviour : Machine.Behaviour σ Job Result} {asked : Job → Prop} [DecidablePred asked]
  {s after : Interleaving σ Job Result} {event : Event Job Result}

theorem answers_answer (s : Interleaving σ Job Result) (query : Query) :
    s.Answers query (s.answer query).1 (s.answer query).2 := by
  cases query with
  | store call => exact .stored call
  | token => exact .token
  | _ => exact .other (by simp) (by simp) _

theorem ready_of_ready? {id : Nat} {thread : Thread σ Job Result}
    (ready : s.ready? id = some thread) : s.Ready id thread := by
  obtain ⟨found, ended⟩ := Option.filter_eq_some_iff.1 ready
  refine ⟨found, fun other mem => ?_⟩
  simpa [SortedMap.contains] using List.all_eq_true.1 ended other mem

omit [DecidablePred asked] in
theorem step_of_act? {id : Nat} {thread : Thread σ Job Result} (ready : s.Ready id thread)
    (acts : s.act? behaviour id thread = some (event, after)) :
    Step behaviour asked s event after := by
  unfold act? at acts
  split at acts
  · rename_i job here
    cases acts
    exact .follow ready here
  · rename_i result here
    cases acts
    exact .finish ready here
  · rename_i query next here
    cases acts
    exact .ask ready here (s.answers_answer query)
  · rename_i permits change next here
    split at acts
    · rename_i state found
      split at acts
      · rename_i permitted
        cases acts
        exact .change ready here found permitted
      · cases acts
    · cases acts
  · rename_i millis stopped next here
    split at acts
    · rename_i known
      obtain ⟨state, found⟩ := Option.isSome_iff_exists.1 known
      cases acts
      exact .sleep ready here found nofun
    · cases acts
  · rename_i job next here
    cases acts
    exact .spawn ready here
  · rename_i jobs next here
    cases acts
    exact .gather ready here

theorem step_of_choose? {choice : Choice Job}
    (chosen : s.choose? behaviour asked choice = some (event, after)) :
    Step behaviour asked s event after := by
  unfold choose? at chosen
  split at chosen
  · obtain ⟨thread, ready, acts⟩ := Option.bind_eq_some_iff.1 chosen
    exact step_of_act? (ready_of_ready? ready) acts
  · split at chosen
    · rename_i thread ready
      split at chosen
      · rename_i call next here
        cases chosen
        exact .ask (ready_of_ready? ready) here (.failed call _)
      · cases chosen
    · cases chosen
  · split at chosen
    · rename_i possible
      cases chosen
      exact .begin possible.1 possible.2
    · cases chosen
  · cases chosen
    exact .outside .list (.stored .list)
  · split at chosen
    · rename_i read
      cases chosen
      exact .outside (.move read) (.stored _)
    · cases chosen

/-- Whatever is played is a run. -/
theorem run_play {first : Interleaving σ Job Result} {trace : List (Event Job Result)}
    (choices : List (Choice Job)) (before : Run behaviour asked first trace s) :
    Run behaviour asked first (play behaviour asked choices (trace, s)).1
      (play behaviour asked choices (trace, s)).2 := by
  induction choices generalizing trace s with
  | nil => exact before
  | cons choice rest ih =>
    unfold play
    split
    · rename_i chosen
      exact ih (before.snoc (step_of_choose? chosen))
    · exact ih before

/-! ### Surroundings that are told what to answer -/

/-- The answer to a question, as told where it is about neither the table nor a token. -/
def answerTold (told : (query : Query) → query.Reply) (s : Interleaving σ Job Result) :
    (query : Query) → query.Reply × Interleaving σ Job Result
  | .store call => s.answer (.store call)
  | .token => s.answer .token
  | query => (told query, s)

/-- Does what was chosen, if that is possible; the surroundings answer as told. -/
def tell? (behaviour : Machine.Behaviour σ Job Result) (asked : Job → Prop) [DecidablePred asked]
    (told : (query : Query) → query.Reply) (s : Interleaving σ Job Result) (choice : Choice Job) :
    Option (Event Job Result × Interleaving σ Job Result) :=
  match choice with
  | .act id =>
    match s.ready? id with
    | some thread =>
      match thread.script with
      | .ask query next =>
        let (reply, answered) := s.answerTold told query
        some (.ofAnswer thread.place thread.job query reply,
          answered.goOn id { thread with script := next reply })
      | _ => s.act? behaviour id thread
    | none => none
  | choice => s.choose? behaviour asked choice

/-- Plays a schedule in surroundings that answer as told. -/
def playTold (behaviour : Machine.Behaviour σ Job Result) (asked : Job → Prop) [DecidablePred asked]
    (told : (query : Query) → query.Reply) :
    List (Choice Job) → List (Event Job Result) × Interleaving σ Job Result →
      List (Event Job Result) × Interleaving σ Job Result
  | [], played => played
  | choice :: rest, (trace, s) =>
    match s.tell? behaviour asked told choice with
    | some (event, after) => playTold behaviour asked told rest (trace ++ [event], after)
    | none => playTold behaviour asked told rest (trace, s)

theorem answers_answerTold (told : (query : Query) → query.Reply) (s : Interleaving σ Job Result) (query : Query) :
    s.Answers query (s.answerTold told query).1 (s.answerTold told query).2 := by
  cases query with
  | store call => exact .stored call
  | token => exact .token
  | _ => exact .other (by simp) (by simp) _

theorem step_of_tell? {told : (query : Query) → query.Reply} {choice : Choice Job}
    (chosen : s.tell? behaviour asked told choice = some (event, after)) :
    Step behaviour asked s event after := by
  unfold tell? at chosen
  split at chosen
  · rename_i id
    split at chosen
    · rename_i thread ready
      split at chosen
      · rename_i query next here
        cases chosen
        exact .ask (ready_of_ready? ready) here (s.answers_answerTold told query)
      · exact step_of_act? (ready_of_ready? ready) chosen
    · cases chosen
  · exact step_of_choose? chosen

theorem run_playTold {first : Interleaving σ Job Result} {trace : List (Event Job Result)}
    (told : (query : Query) → query.Reply) (choices : List (Choice Job)) (before : Run behaviour asked first trace s) :
    Run behaviour asked first (playTold behaviour asked told choices (trace, s)).1
      (playTold behaviour asked told choices (trace, s)).2 := by
  induction choices generalizing trace s with
  | nil => exact before
  | cons choice rest ih =>
    unfold playTold
    split
    · rename_i chosen
      exact ih (before.snoc (step_of_tell? chosen))
    · exact ih before

end LeaseFleet.Interleaving
