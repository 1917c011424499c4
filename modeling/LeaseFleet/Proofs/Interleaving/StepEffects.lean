import LeaseFleet.Proofs.Interleaving.Discipline
import LeaseFleet.Proofs.Script.Journals

/-!
# Occasions

What holds at the end of a run and not at its start has begun to hold by one of its steps
(`Run.begins`), and a run can be divided at each event that it has shown (`Run.at_event`). What a single
step may do to the table, to a thread and to the state of a place is said here step by step, for facts
that no mark of a thread can carry since they are about the run as a whole.
-/

namespace LeaseFleet

variable {σ Job Result : Type}

/-! ## What a step shows of a call -/

namespace Event

/-- Somebody has made the call and got the reply. -/
def Shows (call : StoreCall) (reply : call.Reply) (event : Event Job Result) : Prop :=
  event = .outside call reply ∨ ∃ place job, event = .called place job call reply

variable {call other : StoreCall} {reply : call.Reply} {event : Event Job Result}

theorem Shows.applied? (shows : event.Shows call reply) : event.applied? = call.applied? reply := by
  rcases shows with rfl | ⟨place, job, rfl⟩ <;> rfl

theorem Shows.call_eq {otherReply : other.Reply} (shows : event.Shows call reply)
    (showsToo : event.Shows other otherReply) : call = other := by
  rcases shows with rfl | ⟨place, job, rfl⟩ <;> rcases showsToo with same | ⟨_, _, same⟩ <;> cases same <;> rfl

theorem Shows.reply_eq {otherReply : call.Reply} (shows : event.Shows call reply)
    (showsToo : event.Shows call otherReply) : reply = otherReply := by
  rcases shows with rfl | ⟨place, job, rfl⟩ <;> rcases showsToo with same | ⟨_, _, same⟩ <;> cases same <;> rfl

/-- No call, or one that has failed. -/
def Fruitless (event : Event Job Result) : Prop :=
  ∀ call reply, event.Shows call reply → ∃ error, reply = call.failed error

theorem fruitless_of_not_shows (none : ∀ call reply, ¬event.Shows call reply) : event.Fruitless :=
  fun call reply shows => absurd shows (none call reply)

theorem not_shows_inner (call : StoreCall) (reply : call.Reply) : ¬(inner : Event Job Result).Shows call reply := by
  simp [Shows]

theorem Shows.fruitless {error : StoreError} (shows : event.Shows call (call.failed error)) :
    event.Fruitless := by
  intro other reply showsToo
  obtain rfl := shows.call_eq showsToo
  exact ⟨error, showsToo.reply_eq shows⟩

theorem Fruitless.applied? (fruitless : event.Fruitless) : event.applied? = none := by
  cases event with
  | called place job call reply =>
    obtain ⟨error, rfl⟩ := fruitless call reply (.inr ⟨place, job, rfl⟩)
    exact StoreCall.applied?_failed call error
  | outside call reply =>
    obtain ⟨error, rfl⟩ := fruitless call reply (.inl rfl)
    exact StoreCall.applied?_failed call error
  | _ => rfl

end Event

namespace Interleaving

variable {behaviour : Machine.Behaviour σ Job Result} {asked : Job → Prop}
  {first between last s after : Interleaving σ Job Result} {trace early late later : List (Event Job Result)}
  {event : Event Job Result}

theorem Run.trans (run : Run behaviour asked first trace between)
    (more : Run behaviour asked between later last) :
    Run behaviour asked first (trace ++ later) last := by
  induction more with
  | refl => simpa using run
  | snoc _ step ih =>
    rw [← List.append_assoc]
    exact .snoc ih step

/-- What holds after a run and not before it begins to hold at a step. -/
theorem Run.begins (holds : Interleaving σ Job Result → Prop) (run : Run behaviour asked first trace last)
    (notYet : ¬holds first) (now : holds last) :
    ∃ early before event next late, Run behaviour asked first early before ∧
      Step behaviour asked before event next ∧ Run behaviour asked next late last ∧
      trace = early ++ event :: late ∧ ¬holds before ∧ holds next := by
  induction run with
  | refl => exact absurd now notYet
  | @snoc last after trace event before step ih =>
    by_cases already : holds last
    · obtain ⟨early, earlier, other, next, late, upTo, begins, goesOn, rfl, notBefore, since⟩ := ih already
      exact ⟨early, earlier, other, next, late ++ [event], upTo, begins, goesOn.snoc step, by simp, notBefore,
        since⟩
    · exact ⟨trace, last, event, after, [], before, step, .refl _, rfl, already, now⟩

/-- A run passes through a state between any two parts of what it has shown. -/
theorem Run.divide (run : Run behaviour asked first trace last) (split : trace = early ++ late) :
    ∃ between, Run behaviour asked first early between ∧ Run behaviour asked between late last := by
  induction run generalizing late with
  | refl =>
    obtain ⟨rfl, rfl⟩ := List.append_eq_nil_iff.1 split.symm
    exact ⟨_, .refl _, .refl _⟩
  | @snoc last after trace event before step ih =>
    rcases List.eq_nil_or_concat late with rfl | ⟨rest, final, rfl⟩
    · rw [List.append_nil] at split
      exact ⟨after, split ▸ .snoc before step, .refl _⟩
    · rw [List.concat_eq_append, ← List.append_assoc] at split
      obtain ⟨rfl, same⟩ := List.append_inj' split rfl
      obtain rfl := List.singleton_inj.1 same
      obtain ⟨between, upTo, since⟩ := ih rfl
      exact ⟨between, upTo, List.concat_eq_append ▸ since.snoc step⟩

theorem Run.of_singleton (run : Run behaviour asked first [event] last) : Step behaviour asked first event last := by
  generalize isTrace : [event] = shown at run
  cases run with
  | refl => cases isTrace
  | @snoc _ _ shown final before step =>
    obtain ⟨rfl, same⟩ : shown = [] ∧ [final] = [event] := by
      rcases List.append_eq_singleton_iff.1 isTrace.symm with same | ⟨_, impossible⟩
      · exact same
      · cases impossible
    obtain rfl := List.singleton_inj.1 same
    generalize isNothing : ([] : List (Event Job Result)) = shown at before
    cases before with
    | refl => exact step
    | snoc => simp at isNothing

/-- A run passes through the states before and after each step that it has shown. -/
theorem Run.at_event (run : Run behaviour asked first trace last) (split : trace = early ++ event :: late) :
    ∃ before after, Run behaviour asked first early before ∧ Step behaviour asked before event after ∧
      Run behaviour asked after late last := by
  obtain ⟨before, upTo, since⟩ := run.divide split
  obtain ⟨after, step, more⟩ := since.divide (List.singleton_append (x := event)).symm
  exact ⟨before, after, upTo, step.of_singleton, more⟩

/-- A step leaves the table alone, or it shows the call that the table has carried out. -/
theorem Step.performed (step : Step behaviour asked s event after) :
    after.table = s.table ∧ event.Fruitless ∨
      ∃ call, after.table = (s.table.perform call).2 ∧ event.Shows call (s.table.perform call).1 := by
  have inner : (Event.inner : Event Job Result).Fruitless := Event.fruitless_of_not_shows Event.not_shows_inner
  cases step with
  | @ask answered id thread query next reply ready here answers =>
    cases answers with
    | stored call => exact .inr ⟨call, rfl, .inr ⟨_, _, rfl⟩⟩
    | failed call error => exact .inl ⟨rfl, Event.Shows.fruitless (.inr ⟨thread.place, thread.job, rfl⟩)⟩
    | token => exact .inl ⟨rfl, inner⟩
    | other notCall =>
      cases query with
      | store call => exact absurd rfl (notCall call)
      | _ => exact .inl ⟨rfl, inner⟩
  | @outside answered call reply may answers =>
    rw [keepCopies_table]
    cases answers with
    | stored => exact .inr ⟨call, rfl, .inl rfl⟩
    | failed call error => exact .inl ⟨rfl, Event.Shows.fruitless (.inl rfl)⟩
    | other notCall => exact absurd rfl (notCall _)
  | finish | begin => exact .inl ⟨rfl, Event.fruitless_of_not_shows (by simp [Event.Shows])⟩
  | gather => exact .inl ⟨launchAll_table .., inner⟩
  | _ => exact .inl ⟨rfl, inner⟩

/-- What is shown with an answer has been carried out. -/
theorem Step.answered (step : Step behaviour asked s event after) {call : StoreCall} {answer : call.Answer}
    (shows : event.Shows call (.ok answer)) : s.table.perform call = (.ok answer, after.table) := by
  rcases step.performed with ⟨_, fruitless⟩ | ⟨carriedOut, performed, shown⟩
  · obtain ⟨error, same⟩ := fruitless call _ shows
    cases same
  · obtain rfl := shows.call_eq shown
    rw [shows.reply_eq shown, performed]

theorem launchAll_places (place : String) (jobs : List Job) :
    (s.launchAll behaviour place jobs).places = s.places := by
  induction jobs generalizing s with
  | nil => rfl
  | cons job rest ih => exact ih

/-- A thread after jobs were started was there before, or is new. -/
theorem thread_of_launchAll {place : String} {jobs : List Job} {id : Nat} {thread : Thread σ Job Result}
    (found : (s.launchAll behaviour place jobs).threads.get? id = some thread) :
    s.threads.get? id = some thread ∨ thread.script = behaviour thread.job ∧ s.started ≤ id := by
  induction jobs generalizing s with
  | nil => exact .inl found
  | cons job rest ih =>
    rcases ih found with earlier | ⟨new, later⟩
    · rcases SortedMap.get?_insert_eq_some_iff.1 earlier with ⟨rfl, rfl⟩ | ⟨_, earlier⟩
      · exact .inr ⟨rfl, Nat.le_refl _⟩
      · exact .inl earlier
    · exact .inr ⟨new, Nat.le_of_succ_le later⟩

/-- A thread is at the beginning of its job: it is a new one, or it has ended the job before. -/
structure Begins (behaviour : Machine.Behaviour σ Job Result) (s : Interleaving σ Job Result) (id : Nat)
    (thread : Thread σ Job Result) : Prop where
  script : thread.script = behaviour thread.job
  before : s.started ≤ id ∨ ∃ old value, s.threads.get? id = some old ∧ old.script = .done value

/-- A thread after a step was there before, or is at the beginning of its job, or has done the next
action of its script. -/
theorem Step.thread_proceeds (step : Step behaviour asked s event after) {id : Nat}
    {thread : Thread σ Job Result} (found : after.threads.get? id = some thread) :
    s.threads.get? id = some thread ∨ Begins behaviour s id thread ∨
      ∃ old, s.threads.get? id = some old ∧ old.place = thread.place ∧ old.job = thread.job ∧
        ∃ acts, old.script.Proceeds (s.places.get? old.place = some ·) (after.places.get? old.place = some ·)
          acts thread.script := by
  -- the thread is the one that has acted, or it was there before
  have acted {threads : SortedMap Nat (Thread σ Job Result)} {acting : Nat} {now : Thread σ Job Result}
      (same : threads = s.threads) (found : (threads.insert acting now).get? id = some thread) :
      s.threads.get? id = some thread ∨ id = acting ∧ now = thread :=
    (SortedMap.get?_insert_eq_some_iff.1 found).symm.imp_left fun others => same ▸ others.2
  cases step with
  | ask ready here answers =>
    rcases acted answers.threads found with earlier | ⟨rfl, rfl⟩
    · exact .inl earlier
    · refine .inr (.inr ⟨_, ready.1, rfl, rfl, ?_⟩)
      rw [here]
      exact ⟨_, .ask _ _ _⟩
  | change ready here atPlace permitted =>
    rcases acted rfl found with earlier | ⟨rfl, rfl⟩
    · exact .inl earlier
    · refine .inr (.inr ⟨_, ready.1, rfl, rfl, ?_⟩)
      rw [here]
      exact ⟨_, .step _ atPlace permitted (SortedMap.get?_insert_self ..)⟩
  | sleep ready here atPlace cutShort =>
    rcases acted rfl found with earlier | ⟨rfl, rfl⟩
    · exact .inl earlier
    · refine .inr (.inr ⟨_, ready.1, rfl, rfl, ?_⟩)
      rw [here]
      exact ⟨_, .sleep _ fun short => ⟨_, atPlace, cutShort short⟩⟩
  | spawn ready here =>
    rcases SortedMap.get?_insert_eq_some_iff.1 found with ⟨rfl, rfl⟩ | ⟨_, found⟩
    · exact .inr (.inl ⟨rfl, .inl (Nat.le_refl _)⟩)
    · rcases acted rfl found with earlier | ⟨rfl, rfl⟩
      · exact .inl earlier
      · refine .inr (.inr ⟨_, ready.1, rfl, rfl, ?_⟩)
        rw [here]
        exact ⟨_, .spawn _ _⟩
  | gather ready here =>
    rcases thread_of_launchAll found with found | ⟨new, later⟩
    · rcases acted rfl found with earlier | ⟨rfl, rfl⟩
      · exact .inl earlier
      · refine .inr (.inr ⟨_, ready.1, rfl, rfl, ?_⟩)
        rw [here]
        exact ⟨_, .gather _ _⟩
    · exact .inr (.inl ⟨new, .inl later⟩)
  | follow ready here =>
    rcases acted rfl found with earlier | ⟨rfl, rfl⟩
    · exact .inl earlier
    · exact .inr (.inl ⟨rfl, .inr ⟨_, _, ready.1, here⟩⟩)
  | finish ready here => exact .inl (SortedMap.get?_erase_eq_some_iff.1 found).2
  | begin known may =>
    rcases acted rfl found with earlier | ⟨rfl, rfl⟩
    · exact .inl earlier
    · exact .inr (.inl ⟨rfl, .inl (Nat.le_refl _)⟩)
  | outside may answers =>
    rw [keepCopies_threads, answers.threads] at found
    exact .inl found

/-- A thread after a step was there before, or is at the beginning of its job, or has gone on from
where it was: past a change of the state of its place, or past some other action. -/
theorem Step.thread_cases (step : Step behaviour asked s event after) {id : Nat} {thread : Thread σ Job Result}
    (found : after.threads.get? id = some thread) :
    s.threads.get? id = some thread ∨ thread.script = behaviour thread.job ∨
      ∃ old, s.threads.get? id = some old ∧ old.place = thread.place ∧ old.job = thread.job ∧
        ((∃ permits change next state, old.script = .step permits change next ∧
          s.places.get? old.place = some state ∧ thread.script = next state) ∨
        (∀ permits change next, old.script ≠ .step permits change next) ∧ ∀ value, old.script ≠ .done value) := by
  refine (step.thread_proceeds found).imp_right (Or.imp Begins.script ?_)
  rintro ⟨old, earlier, place, job, acts, proceeds⟩
  refine ⟨old, earlier, place, job, ?_⟩
  generalize old.script = script at proceeds
  generalize thread.script = rest at proceeds
  cases proceeds with
  | step next here permitted left => exact .inl ⟨_, _, next, _, rfl, here, rfl⟩
  | _ => exact .inr (by simp)

end Interleaving

/-- What a place comes to by a step, if it changes at all, is open to a thread there. -/
theorem Discipline.Step.place_cases {Mark : Type} {discipline : Discipline σ Job Result Mark}
    {behaviour : Machine.Behaviour σ Job Result} {asked : Job → Prop} {s after : Interleaving σ Job Result}
    {event : Event Job Result} {marks : Nat → Mark} (marked : discipline.Marked s marks)
    (sees : ∀ {place state} job, s.places.get? place = some state → (discipline.rules place job).sees state)
    (step : Interleaving.Step behaviour asked s event after) {place : String} {now : σ}
    (found : after.places.get? place = some now) :
    s.places.get? place = some now ∨ event = .inner ∧ ∃ id thread state mark,
      s.threads.get? id = some thread ∧ thread.place = place ∧ s.places.get? place = some state ∧
        (discipline.rules place thread.job).steps (marks id) state now mark := by
  cases step with
  | ask ready here answers => exact .inl (answers.places ▸ found)
  | @change id thread permits change next state ready here atPlace permitted =>
    rcases SortedMap.get?_insert_eq_some_iff.1 found with ⟨rfl, rfl⟩ | ⟨_, found⟩
    · have keeps := marked.keeps ready.1
      rw [Discipline.Keeps, here] at keeps
      obtain ⟨mark, isOpen, _⟩ := keeps state (sees thread.job atPlace) permitted
      exact .inr ⟨rfl, id, thread, state, mark, ready.1, rfl, atPlace, isOpen⟩
    · exact .inl found
  | gather ready here =>
    rw [Interleaving.launchAll_places] at found
    exact .inl found
  | outside may answers =>
    rw [Interleaving.keepCopies_places, answers.places] at found
    exact .inl found
  | _ => exact .inl found

end LeaseFleet
