import LeaseFleet.Proofs.Script.ThreadHistories

/-!
# Whose turn it is

A step is the action of one thread, or begins a thread, or is a call by somebody else (`Step.acts`). The
action of a thread (`Acts`) goes by the next action of its script, and leaves all other threads, and all
places but its own, as they were.
-/

namespace LeaseFleet.Interleaving

variable {σ Job Result : Type} {behaviour : Machine.Behaviour σ Job Result} {asked : Job → Prop}
  {s after : Interleaving σ Job Result} {event : Event Job Result} {id other : Nat} {thread : Thread σ Job Result}

/-- A thread does the next action of its script. -/
inductive Acts (behaviour : Machine.Behaviour σ Job Result) (s : Interleaving σ Job Result) (id : Nat)
    (thread : Thread σ Job Result) : Event Job Result → Interleaving σ Job Result → Prop
  | ask {answered : Interleaving σ Job Result} {query : Query} {next : query.Reply → Script σ Job (Job ⊕ Result)}
      {reply : query.Reply} (here : thread.script = .ask query next) (answers : s.Answers query reply answered) :
      Acts behaviour s id thread (.ofAnswer thread.place thread.job query reply)
        (answered.goOn id { thread with script := next reply })
  | change {permits : σ → Bool} {change : σ → σ} {next : σ → Script σ Job (Job ⊕ Result)} {state : σ}
      (here : thread.script = .step permits change next) (found : s.places.get? thread.place = some state)
      (permitted : permits state = true) :
      Acts behaviour s id thread .inner
        ((s.setPlace thread.place (change state)).goOn id { thread with script := next state })
  | sleep {millis : Nat} {stopped : σ → Bool} {next : Bool → Script σ Job (Job ⊕ Result)} {state : σ}
      {complete : Bool} (here : thread.script = .sleep millis stopped next)
      (found : s.places.get? thread.place = some state) (cutShort : complete = false → stopped state = true) :
      Acts behaviour s id thread .inner (s.goOn id { thread with script := next complete })
  | spawn {job : Job} {next : Script σ Job (Job ⊕ Result)} (here : thread.script = .spawn job next) :
      Acts behaviour s id thread .inner
        ((s.goOn id { thread with script := next }).launch behaviour thread.place job)
  | gather {jobs : List Job} {next : Script σ Job (Job ⊕ Result)} (here : thread.script = .gather jobs next) :
      Acts behaviour s id thread .inner
        ((s.goOn id { thread with script := next, pending := s.nextIds jobs }).launchAll behaviour
          thread.place jobs)
  | follow {job : Job} (here : thread.script = .done (.inl job)) :
      Acts behaviour s id thread .inner (s.goOn id { thread with job, script := behaviour job })
  | finish {result : Result} (here : thread.script = .done (.inr result)) :
      Acts behaviour s id thread (.ended thread.place thread.job result) (s.drop id)

/-- A step is the action of a thread that is ready, or begins a thread, or is a call by somebody else. -/
theorem Step.acts (step : Step behaviour asked s event after) :
    (∃ id thread, s.Ready id thread ∧ Acts behaviour s id thread event after) ∨
      (∃ place job, event = .begun place job ∧ after = s.launch behaviour place job ∧ asked job) ∨
      ∃ call reply answered, event = .outside call reply ∧ after = answered.keepCopies call reply ∧
        s.Answers (.store call) reply answered := by
  cases step with
  | ask ready here answers => exact .inl ⟨_, _, ready, .ask here answers⟩
  | change ready here found permitted => exact .inl ⟨_, _, ready, .change here found permitted⟩
  | sleep ready here found cutShort => exact .inl ⟨_, _, ready, .sleep here found cutShort⟩
  | spawn ready here => exact .inl ⟨_, _, ready, .spawn here⟩
  | gather ready here => exact .inl ⟨_, _, ready, .gather here⟩
  | follow ready here => exact .inl ⟨_, _, ready, .follow here⟩
  | finish ready here => exact .inl ⟨_, _, ready, .finish here⟩
  | begin known may => exact .inr (.inl ⟨_, _, rfl, rfl, may⟩)
  | outside may answers => exact .inr (.inr ⟨_, _, _, rfl, rfl, answers⟩)

/-- A thread after jobs were started was there before, or does one of them. -/
theorem job_of_launchAll {place : String} {jobs : List Job} {id : Nat} {thread : Thread σ Job Result}
    (found : (s.launchAll behaviour place jobs).threads.get? id = some thread) :
    s.threads.get? id = some thread ∨ thread.place = place ∧ thread.job ∈ jobs := by
  induction jobs generalizing s with
  | nil => exact .inl found
  | cons job rest ih =>
    rcases ih found with earlier | ⟨atPlace, mem⟩
    · rcases SortedMap.get?_insert_eq_some_iff.1 earlier with ⟨_, rfl⟩ | ⟨_, earlier⟩
      · exact .inr ⟨rfl, List.mem_cons_self⟩
      · exact .inl earlier
    · exact .inr ⟨atPlace, List.mem_cons_of_mem _ mem⟩

namespace Acts

/-- A thread that is ready may act. -/
theorem step (acts : Acts behaviour s id thread event after) (ready : s.Ready id thread) :
    Step behaviour asked s event after := by
  cases acts with
  | ask here answers => exact .ask ready here answers
  | change here found permitted => exact .change ready here found permitted
  | sleep here found cutShort => exact .sleep ready here found cutShort
  | spawn here => exact .spawn ready here
  | gather here => exact .gather ready here
  | follow here => exact .follow ready here
  | finish here => exact .finish ready here

/-- The other threads stay as they were. -/
theorem get?_of_ne (acts : Acts behaviour s id thread event after) (ne : other ≠ id) (old : other < s.started) :
    after.threads.get? other = s.threads.get? other := by
  have goneOn (now : Thread σ Job Result) : (s.goOn id now).threads.get? other = s.threads.get? other :=
    SortedMap.get?_insert_of_ne _ ne _
  cases acts with
  | ask here answers => exact (SortedMap.get?_insert_of_ne _ ne _).trans (by rw [answers.threads])
  | change | sleep | follow => exact goneOn _
  | spawn => exact (get?_launch (by exact old)).trans (goneOn _)
  | gather => exact (get?_launchAll (by exact old)).trans (goneOn _)
  | finish =>
    refine (SortedMap.get?_erase ..).trans (if_neg ?_)
    exact fun equal => ne (Std.LawfulEqCmp.eq_of_compare equal)

/-- A place changes only if it is the thread's own, by the change that is next in its script. -/
theorem places (acts : Acts behaviour s id thread event after) : after.places = s.places ∨
    ∃ permits change next state, thread.script = .step permits change next ∧
      s.places.get? thread.place = some state ∧ permits state = true ∧
      after.places = s.places.insert thread.place (change state) := by
  cases acts with
  | ask here answers => exact .inl answers.places
  | change here found permitted => exact .inr ⟨_, _, _, _, here, found, permitted, rfl⟩
  | gather => exact .inl (launchAll_places ..)
  | _ => exact .inl rfl

/-- A thread that is about to change its place does just this. -/
theorem of_step {permits : σ → Bool} {change : σ → σ} {next : σ → Script σ Job (Job ⊕ Result)}
    (acts : Acts behaviour s id thread event after) (here : thread.script = .step permits change next) :
    ∃ state, s.places.get? thread.place = some state ∧ permits state = true ∧ event = .inner ∧
      after = (s.setPlace thread.place (change state)).goOn id { thread with script := next state } := by
  cases acts with
  | change isHere found permitted =>
    obtain ⟨rfl, rfl, rfl⟩ := Script.step.inj (isHere.symm.trans here)
    exact ⟨_, found, permitted, rfl, rfl⟩
  | ask isHere | sleep isHere | spawn isHere | gather isHere | follow isHere | finish isHere =>
    cases isHere.symm.trans here

/-- A thread that is about to ask does just this. -/
theorem of_ask {query : Query} {next : query.Reply → Script σ Job (Job ⊕ Result)}
    (acts : Acts behaviour s id thread event after) (here : thread.script = .ask query next) :
    ∃ reply answered, s.Answers query reply answered ∧ event = .ofAnswer thread.place thread.job query reply ∧
      after = answered.goOn id { thread with script := next reply } := by
  cases acts with
  | ask isHere answers =>
    obtain ⟨rfl, same⟩ := Script.ask.inj (isHere.symm.trans here)
    obtain rfl := eq_of_heq same
    exact ⟨_, _, answers, rfl, rfl⟩
  | change isHere | sleep isHere | spawn isHere | gather isHere | follow isHere | finish isHere =>
    cases isHere.symm.trans here

/-- A thread that is about to start jobs and to wait for them does just this. -/
theorem of_gather {jobs : List Job} {next : Script σ Job (Job ⊕ Result)}
    (acts : Acts behaviour s id thread event after) (here : thread.script = .gather jobs next) :
    event = .inner ∧
      after = (s.goOn id { thread with script := next, pending := s.nextIds jobs }).launchAll behaviour
        thread.place jobs := by
  cases acts with
  | gather isHere =>
    obtain ⟨rfl, rfl⟩ := Script.gather.inj (isHere.symm.trans here)
    exact ⟨rfl, rfl⟩
  | ask isHere | change isHere | sleep isHere | spawn isHere | follow isHere | finish isHere =>
    cases isHere.symm.trans here

/-- A thread to which only a result is left ends. -/
theorem of_done {result : Result} (acts : Acts behaviour s id thread event after)
    (here : thread.script = .done (.inr result)) :
    event = .ended thread.place thread.job result ∧ after = s.drop id := by
  cases acts with
  | finish isHere =>
    obtain rfl := Sum.inr.inj (Script.done.inj (isHere.symm.trans here))
    exact ⟨rfl, rfl⟩
  | ask isHere | change isHere | sleep isHere | spawn isHere | gather isHere | follow isHere =>
    cases isHere.symm.trans here

end Acts

end LeaseFleet.Interleaving
