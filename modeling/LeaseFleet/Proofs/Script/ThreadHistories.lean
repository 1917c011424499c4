import LeaseFleet.Proofs.Interleaving.StepEffects

/-!
# Histories

A thread has come to where it is by the actions of its script, each at a state of its place and
answered somehow. `Unfolds` says so of a script alone: what it has done, what is left of it, and that
its place was only ever in certain states, so that a sleep was cut short only if one of these says stop.
Every thread of a run has such a history (`Run.unfolds`). What a script yields whatever happens
(`Yields`) is worked out along its actions and holds of all its histories (`Unfolds.yields`).
-/

namespace LeaseFleet

namespace Script

variable {σ τ Job Other α β : Type}

/-- What a script has done, the last act first, and what is left of it, at a place that has only been
in the given states. -/
inductive Unfolds (met : σ → Prop) (script : Script σ Job α) : Journal σ → Script σ Job α → Prop
  | start : Unfolds met script [] script
  | more {past acts : Journal σ} {between rest : Script σ Job α} (earlier : Unfolds met script past between)
      (proceeds : between.Proceeds met met acts rest) : Unfolds met script (acts ++ past) rest

section

variable {here there met more : σ → Prop} {script rest : Script σ Job α} {past acts : Journal σ}

theorem Proceeds.imp {hereToo thereToo : σ → Prop} (proceeds : script.Proceeds here there acts rest)
    (weaken : ∀ state, here state → hereToo state) (loosen : ∀ state, there state → thereToo state) :
    script.Proceeds hereToo thereToo acts rest := by
  cases proceeds with
  | ask query next reply => exact .ask query next reply
  | step following found permitted left => exact .step following (weaken _ found) permitted (loosen _ left)
  | sleep following cutShort =>
    exact .sleep following fun short => (cutShort short).imp fun state stops => ⟨weaken state stops.1, stops.2⟩
  | spawn => exact .spawn _ _
  | gather => exact .gather _ _

theorem Unfolds.imp (unfolds : script.Unfolds met past rest) (weaken : ∀ state, met state → more state) :
    script.Unfolds more past rest := by
  induction unfolds with
  | start => exact .start
  | more _ proceeds ih => exact ih.more (proceeds.imp weaken weaken)

theorem not_proceeds_done {value : α} : ¬(done value : Script σ Job α).Proceeds here there acts rest := by
  rintro ⟨⟩

/-- What is left of a script after a change is another script. -/
theorem next_ne_step {ready : σ → Bool} {change : σ → σ} {next : σ → Script σ Job α} (state : σ) :
    next state ≠ step ready change next := by
  suffices differs : ∀ script : Script σ Job α, script = next state → script ≠ step ready change next from
    differs _ rfl
  intro script isNext
  induction script with
  | step _ _ others ih =>
    intro same
    obtain ⟨rfl, rfl, rfl⟩ := step.inj same
    exact ih state rfl isNext.symm
  | _ => simp

theorem Unfolds.of_done {value : α} (unfolds : (done value : Script σ Job α).Unfolds met past rest) :
    past = [] ∧ rest = done value := by
  induction unfolds with
  | start => exact ⟨rfl, rfl⟩
  | more _ proceeds ih =>
    obtain ⟨_, rfl⟩ := ih
    exact absurd proceeds not_proceeds_done

/-- The next action of one script after another is an action of the first, as long as it has one. -/
theorem Proceeds.of_bind {following : α → Script σ Job β} {rest : Script σ Job β}
    (proceeds : (script.bind following).Proceeds here there acts rest) :
    (∃ part, script.Proceeds here there acts part ∧ rest = part.bind following) ∨
      ∃ value, script = done value ∧ (following value).Proceeds here there acts rest := by
  cases script with
  | done value => exact .inr ⟨value, rfl, proceeds⟩
  | ask query next =>
    cases proceeds with
    | ask _ _ reply => exact .inl ⟨_, .ask query next reply, rfl⟩
  | step ready change next =>
    cases proceeds with
    | step _ found permitted left => exact .inl ⟨_, .step next found permitted left, rfl⟩
  | sleep millis stopped next =>
    cases proceeds with
    | sleep _ cutShort => exact .inl ⟨_, .sleep next cutShort, rfl⟩
  | spawn job next =>
    cases proceeds with
    | spawn => exact .inl ⟨_, .spawn job next, rfl⟩
  | gather jobs next =>
    cases proceeds with
    | gather => exact .inl ⟨_, .gather jobs next, rfl⟩

/-- Two scripts one after another have ended only if the first has. -/
theorem eq_done_of_bind {following : α → Script σ Job β} {value : β} (ended : script.bind following = done value) :
    ∃ mid, script = done mid := by
  cases script with
  | done mid => exact ⟨mid, rfl⟩
  | _ => cases ended

/-- One script after another: the first is under way, or it has ended and the second has begun. -/
theorem Unfolds.of_bind {following : α → Script σ Job β} {rest : Script σ Job β}
    (unfolds : (script.bind following).Unfolds met past rest) :
    (∃ part, script.Unfolds met past part ∧ rest = part.bind following ∧ ∀ value, part ≠ done value) ∨
      ∃ value early late, script.Unfolds met early (done value) ∧
        (following value).Unfolds met late rest ∧ past = late ++ early := by
  -- a part that has ended is the beginning of the second script
  have underWay {past : Journal σ} {part : Script σ Job α} (first : script.Unfolds met past part) :
      (∃ other, script.Unfolds met past other ∧ part.bind following = other.bind following ∧
        ∀ value, other ≠ done value) ∨
      ∃ value early late, script.Unfolds met early (done value) ∧
        (following value).Unfolds met late (part.bind following) ∧ past = late ++ early := by
    cases part with
    | done value => exact .inr ⟨value, past, [], first, .start, rfl⟩
    | _ => exact .inl ⟨_, first, rfl, by simp⟩
  induction unfolds with
  | start => exact underWay .start
  | more _ proceeds ih =>
    rcases ih with ⟨part, first, rfl, _⟩ | ⟨value, early, late, first, second, rfl⟩
    · rcases proceeds.of_bind with ⟨next, goesOn, rfl⟩ | ⟨value, rfl, goesOn⟩
      · exact underWay (first.more goesOn)
      · exact .inr ⟨value, _, _, first, .more .start goesOn, by simp⟩
    · exact .inr ⟨value, early, _, first, second.more proceeds, by simp⟩

/-- A change of the state, and what follows it. -/
theorem Unfolds.of_step {ready : σ → Bool} {change : σ → σ} {next : σ → Script σ Job α}
    (unfolds : (step ready change next).Unfolds met past rest) :
    past = [] ∧ rest = step ready change next ∨ ∃ state late, met state ∧ met (change state) ∧
      (next state).Unfolds met late rest ∧ past = late ++ [.changed state (change state)] := by
  induction unfolds with
  | start => exact .inl ⟨rfl, rfl⟩
  | more _ proceeds ih =>
    rcases ih with ⟨rfl, rfl⟩ | ⟨state, late, found, left, unfolds, rfl⟩
    · cases proceeds with
      | step _ found _ left => exact .inr ⟨_, [], found, left, .start, rfl⟩
    · exact .inr ⟨state, _, found, left, unfolds.more proceeds, by simp⟩

/-- A sleep, and what follows it. -/
theorem Unfolds.of_sleep {millis : Nat} {stopped : σ → Bool} {next : Bool → Script σ Job α}
    (unfolds : (sleep millis stopped next).Unfolds met past rest) :
    past = [] ∧ rest = sleep millis stopped next ∨ ∃ complete,
      (complete = false → ∃ state, met state ∧ stopped state = true) ∧ (next complete).Unfolds met past rest := by
  induction unfolds with
  | start => exact .inl ⟨rfl, rfl⟩
  | more _ proceeds ih =>
    rcases ih with ⟨rfl, rfl⟩ | ⟨complete, cutShort, unfolds⟩
    · cases proceeds with
      | sleep _ cutShort => exact .inr ⟨_, cutShort, .start⟩
    · exact .inr ⟨complete, cutShort, unfolds.more proceeds⟩

end

/-- What a script of one kind has done is of this kind. -/
theorem Only.unfolds {sees : σ → Prop} {each : Act σ → Prop} {wanted : α → Prop} {met : σ → Prop} {past : Journal σ}
    {script rest : Script σ Job α} (keeps : script.Only sees each wanted)
    (unfolds : script.Unfolds met past rest) (seen : ∀ state, met state → sees state) :
    rest.Only sees each wanted ∧ ∀ act ∈ past, each act := by
  induction unfolds with
  | start => exact ⟨keeps, by simp⟩
  | more _ proceeds ih =>
    obtain ⟨keeps, earlier⟩ := ih
    cases proceeds with
    | ask query next reply =>
      obtain ⟨_, kind, rest⟩ := keeps reply trivial
      exact ⟨rest, List.forall_mem_cons.2 ⟨kind, earlier⟩⟩
    | step next found permitted _ =>
      obtain ⟨_, kind, rest⟩ := keeps _ (seen _ found) permitted
      exact ⟨rest, List.forall_mem_cons.2 ⟨kind, earlier⟩⟩
    | sleep => exact ⟨keeps _, earlier⟩
    | spawn =>
      obtain ⟨_, _, _, rest⟩ := keeps
      exact ⟨rest, earlier⟩
    | gather =>
      obtain ⟨_, _, _, rest⟩ := keeps
      exact ⟨rest, earlier⟩

/-! ## Scripts with renamed jobs -/

/-- The whole state, as a part of itself. -/
abbrev Part.whole : Part σ σ := { get := id, put := fun state _ => state }

section

variable {here there met : σ → Prop} {past acts : Journal σ} {script : Script σ Other α}
  {rest : Script σ Job α} {rename : Other → Job}

theorem Proceeds.of_embed (proceeds : (script.embed .whole rename).Proceeds here there acts rest) :
    ∃ part, script.Proceeds here there acts part ∧ rest = part.embed .whole rename := by
  cases script with
  | done value => exact absurd proceeds not_proceeds_done
  | ask query next =>
    cases proceeds with
    | ask _ _ reply => exact ⟨_, .ask query next reply, rfl⟩
  | step ready change next =>
    cases proceeds with
    | step _ found permitted left => exact ⟨_, .step next found permitted left, rfl⟩
  | sleep millis stopped next =>
    cases proceeds with
    | sleep _ cutShort => exact ⟨_, .sleep next cutShort, rfl⟩
  | spawn job next =>
    cases proceeds with
    | spawn => exact ⟨_, .spawn job next, rfl⟩
  | gather jobs next =>
    cases proceeds with
    | gather => exact ⟨_, .gather jobs next, rfl⟩

theorem Unfolds.of_embed (unfolds : (script.embed .whole rename).Unfolds met past rest) :
    ∃ part, script.Unfolds met past part ∧ rest = part.embed .whole rename := by
  induction unfolds with
  | start => exact ⟨script, .start, rfl⟩
  | more _ proceeds ih =>
    obtain ⟨part, earlier, rfl⟩ := ih
    obtain ⟨next, goesOn, same⟩ := proceeds.of_embed
    exact ⟨next, earlier.more goesOn, same⟩

end

/-- Scripts one after another, with renamed jobs. -/
theorem embed_bind {part : Part τ σ} {rename : Job → Other} (script : Script σ Job α)
    (following : α → Script σ Job β) :
    (script.bind following).embed part rename =
      (script.embed part rename).bind fun value => (following value).embed part rename := by
  induction script with
  | done value => rfl
  | ask query next ih => simp only [bind, embed, ih]
  | step ready change next ih => simp only [bind, embed, ih]
  | sleep millis stopped next ih => simp only [bind, embed, ih]
  | spawn job next ih => simp only [bind, embed, ih]
  | gather jobs next ih => simp only [bind, embed, ih]

/-! ## What a script yields -/

/-- Whatever happens at a place that is only in the given states, the value at the end is as wanted. -/
def Yields (met : σ → Prop) (wanted : α → Prop) : Script σ Job α → Prop
  | done value => wanted value
  | ask _ next => ∀ reply, (next reply).Yields met wanted
  | step ready change next => ∀ state, met state → ready state = true → met (change state) →
      (next state).Yields met wanted
  | sleep _ stopped next => ∀ complete, (complete = false → ∃ state, met state ∧ stopped state = true) →
      (next complete).Yields met wanted
  | spawn _ next | gather _ next => next.Yields met wanted

section

variable {met : σ → Prop} {wanted : α → Prop} {script rest : Script σ Job α} {past acts : Journal σ}

theorem yields_bind {wanted : β → Prop} {following : α → Script σ Job β} :
    (script.bind following).Yields met wanted ↔
      script.Yields met fun value => (following value).Yields met wanted := by
  induction script with
  | done value => rfl
  | ask query next ih => simp only [bind, Yields, ih]
  | step ready change next ih => simp only [bind, Yields, ih]
  | sleep millis stopped next ih => simp only [bind, Yields, ih]
  | spawn job next ih => simp only [bind, Yields, ih]
  | gather jobs next ih => simp only [bind, Yields, ih]

theorem Yields.imp {weaker : α → Prop} (yields : script.Yields met wanted)
    (weaken : ∀ value, wanted value → weaker value) : script.Yields met weaker := by
  induction script with
  | done value => exact weaken value yields
  | ask query next ih => exact fun reply => ih reply (yields reply)
  | step ready change next ih =>
    exact fun state found permitted left => ih state (yields state found permitted left)
  | sleep millis stopped next ih => exact fun complete cutShort => ih complete (yields complete cutShort)
  | spawn job next ih => exact ih yields
  | gather jobs next ih => exact ih yields

/-- Every value is a value. -/
theorem yields_of_forall (all : ∀ value, wanted value) : script.Yields met wanted := by
  induction script with
  | done value => exact all value
  | ask query next ih => exact fun reply => ih reply
  | step ready change next ih => exact fun state _ _ _ => ih state
  | sleep millis stopped next ih => exact fun complete _ => ih complete
  | spawn job next ih => exact ih
  | gather jobs next ih => exact ih

/-- One script after another, of which the second yields what is wanted after every wanted value of the
first. -/
theorem Yields.bind {mid : α → Prop} {wanted : β → Prop} {following : α → Script σ Job β}
    (first : script.Yields met mid) (second : ∀ value, mid value → (following value).Yields met wanted) :
    (script.bind following).Yields met wanted :=
  yields_bind.2 (first.imp second)

/-- One script after another, of which the second yields what is wanted in any case. -/
theorem yields_bind_of_forall {wanted : β → Prop} {following : α → Script σ Job β}
    (second : ∀ value, (following value).Yields met wanted) : (script.bind following).Yields met wanted :=
  yields_bind.2 (yields_of_forall second)

/-- A script on a part of the state yields what it yields alone. -/
theorem Yields.embed {part : Part τ σ} {rename : Job → Other} {whole : τ → Prop}
    (lawful : ∀ now state, part.get (part.put now state) = now)
    (yields : script.Yields met wanted) (seen : ∀ state, whole state → met (part.get state)) :
    (script.embed part rename).Yields whole wanted := by
  induction script with
  | done value => exact yields
  | ask query next ih => exact fun reply => ih reply (yields reply)
  | step ready change next ih =>
    refine fun state found permitted left => ih _ (yields _ (seen state found) permitted ?_)
    have back := seen _ left
    rwa [lawful] at back
  | sleep millis stopped next ih =>
    refine fun complete cutShort => ih complete (yields complete fun short => ?_)
    obtain ⟨state, found, stops⟩ := cutShort short
    exact ⟨part.get state, seen state found, stops⟩
  | spawn job next ih => exact ih yields
  | gather jobs next ih => exact ih yields

theorem Yields.proceeds (yields : script.Yields met wanted) (proceeds : script.Proceeds met met acts rest) :
    rest.Yields met wanted := by
  cases proceeds with
  | ask _ _ reply => exact yields reply
  | step _ found permitted left => exact yields _ found permitted left
  | sleep _ cutShort => exact yields _ cutShort
  | spawn => exact yields
  | gather => exact yields

theorem Yields.unfolds (yields : script.Yields met wanted) (unfolds : script.Unfolds met past rest) :
    rest.Yields met wanted := by
  induction unfolds with
  | start => exact yields
  | more _ proceeds ih => exact ih.proceeds proceeds

end

/-! ## What a script brings about -/

/-- Whatever happens, the script leaves its place in a state of the given kind before it ends. -/
def Brings (goal : σ → Prop) : Script σ Job α → Prop
  | done _ => False
  | ask _ next => ∀ reply, (next reply).Brings goal
  | step ready change next => ∀ state, ready state = true → goal (change state) ∨ (next state).Brings goal
  | sleep _ _ next => ∀ complete, (next complete).Brings goal
  | spawn _ next | gather _ next => next.Brings goal

section

variable {goal here : σ → Prop} {script rest : Script σ Job α} {acts : Journal σ}

theorem Brings.bind {following : α → Script σ Job β} (brings : script.Brings goal) :
    (script.bind following).Brings goal := by
  induction script with
  | done value => exact brings.elim
  | ask query next ih => exact fun reply => ih reply (brings reply)
  | step ready change next ih => exact fun state permitted => (brings state permitted).imp_right (ih state)
  | sleep millis stopped next ih => exact fun complete => ih complete (brings complete)
  | spawn job next ih => exact ih brings
  | gather jobs next ih => exact ih brings

/-- One script after another, of which the second brings it about in any case. -/
theorem brings_bind_of_forall {following : α → Script σ Job β} (second : ∀ value, (following value).Brings goal) :
    (script.bind following).Brings goal := by
  induction script with
  | done value => exact second value
  | ask query next ih => exact fun reply => ih reply
  | step ready change next ih => exact fun state _ => .inr (ih state)
  | sleep millis stopped next ih => exact fun complete => ih complete
  | spawn job next ih => exact ih
  | gather jobs next ih => exact ih

theorem Brings.embed {script : Script σ Other α} {rename : Other → Job} (brings : script.Brings goal) :
    (script.embed .whole rename).Brings goal := by
  induction script with
  | done value => exact brings
  | ask query next ih => exact fun reply => ih reply (brings reply)
  | step ready change next ih => exact fun state permitted => (brings state permitted).imp_right (ih state)
  | sleep millis stopped next ih => exact fun complete => ih complete (brings complete)
  | spawn job next ih => exact ih brings
  | gather jobs next ih => exact ih brings

/-- The next action brings it about, or what is left does. -/
theorem Brings.proceeds {there : σ → Prop} (brings : script.Brings goal)
    (proceeds : script.Proceeds here there acts rest) : (∃ state, there state ∧ goal state) ∨ rest.Brings goal := by
  cases proceeds with
  | ask _ _ reply => exact .inr (brings reply)
  | step _ found permitted left => exact (brings _ permitted).imp_left fun reached => ⟨_, left, reached⟩
  | sleep _ cutShort => exact .inr (brings _)
  | spawn => exact .inr brings
  | gather => exact .inr brings

end

end Script

/-! ## The threads of a run -/

namespace Interleaving

variable {σ Job Result : Type} {behaviour : Machine.Behaviour σ Job Result} {asked : Job → Prop}
  {first last s after : Interleaving σ Job Result} {trace : List (Event Job Result)} {event : Event Job Result}

/-- A state of the place before, after or within a run. -/
def Visits (behaviour : Machine.Behaviour σ Job Result) (asked : Job → Prop)
    (first last : Interleaving σ Job Result) (place : String) (state : σ) : Prop :=
  ∃ early between late, Run behaviour asked first early between ∧ Run behaviour asked between late last ∧
    between.places.get? place = some state

theorem Visits.step {place : String} {state : σ} (visits : Visits behaviour asked first s place state)
    (step : Step behaviour asked s event after) : Visits behaviour asked first after place state := by
  obtain ⟨early, between, late, before, since, found⟩ := visits
  exact ⟨early, between, late ++ [event], before, since.snoc step, found⟩

/-- Every thread that was not there at first, or was still to begin, has come to where it is from the beginning
of its job, by what it met at its place. -/
theorem Run.unfolds (run : Run behaviour asked first trace last) {id : Nat}
    (new : ∀ {waiting}, first.threads.get? id = some waiting → waiting.script = behaviour waiting.job)
    {thread : Thread σ Job Result} (found : last.threads.get? id = some thread) :
    ∃ past, (behaviour thread.job).Unfolds (Visits behaviour asked first last thread.place) past
      thread.script := by
  induction run generalizing thread with
  | refl => exact ⟨[], new found ▸ .start⟩
  | @snoc s after trace event before step ih =>
    have isThere {place : String} {state : σ} (here : after.places.get? place = some state) :
        Visits behaviour asked first after place state :=
      ⟨_, _, [], before.snoc step, .refl _, here⟩
    have wasThere {place : String} {state : σ} (here : s.places.get? place = some state) :
        Visits behaviour asked first after place state :=
      ⟨_, _, [event], before, .snoc (.refl s) step, here⟩
    rcases step.thread_proceeds found with earlier | begins | ⟨old, earlier, place, job, acts, proceeds⟩
    · obtain ⟨past, unfolds⟩ := ih earlier
      exact ⟨past, unfolds.imp fun _ visits => visits.step step⟩
    · exact ⟨[], begins.script ▸ .start⟩
    · obtain ⟨past, unfolds⟩ := ih earlier
      rw [place, job] at unfolds
      rw [place] at proceeds
      exact ⟨acts ++ past, (unfolds.imp fun _ visits => visits.step step).more
        (proceeds.imp (fun _ here => wasThere here) fun _ here => isThere here)⟩

/-! ### A thread over one step -/

theorem get?_launch {place : String} {job : Job} {id : Nat} (old : id < s.started) :
    (s.launch behaviour place job).threads.get? id = s.threads.get? id :=
  SortedMap.get?_insert_of_ne _ (Nat.ne_of_lt old) _

theorem get?_launchAll {place : String} {jobs : List Job} {id : Nat} (old : id < s.started) :
    (s.launchAll behaviour place jobs).threads.get? id = s.threads.get? id := by
  induction jobs generalizing s with
  | nil => rfl
  | cons job rest ih => exact (ih (Nat.lt_succ_of_lt old)).trans (get?_launch old)

theorem launchAll_contains {place : String} {jobs : List Job} {id : Nat} (known : s.threads.contains id = true) :
    (s.launchAll behaviour place jobs).threads.contains id = true := by
  induction jobs generalizing s with
  | nil => exact known
  | cons job rest ih => exact ih (s := s.launch behaviour place job) (SortedMap.contains_insert_of_contains known)

section

variable {id : Nat} {thread : Thread σ Job Result} (step : Step behaviour asked s event after) (old : id < s.started)
  (found : s.threads.get? id = some thread)

include step old found

omit old in
/-- Only a thread that has ended is no longer there. -/
theorem Step.ended_of_gone (gone : after.threads.get? id = none) : ∃ value, thread.script = .done value := by
  have stays {threads : SortedMap Nat (Thread σ Job Result)} {acting : Nat} {now : Thread σ Job Result}
      (known : threads.contains id = true) : (threads.insert acting now).contains id = true :=
    SortedMap.contains_insert_of_contains known
  have known : s.threads.contains id = true := Option.isSome_of_eq_some found
  have notThere : ¬after.threads.contains id = true := by simp [SortedMap.contains, gone]
  cases step with
  | ask ready here answers => exact absurd (stays (answers.threads ▸ known)) notThere
  | spawn => exact absurd (stays (stays known)) notThere
  | gather => exact absurd (launchAll_contains (stays known)) notThere
  | @finish acting other result ready here =>
    by_cases isActing : id = acting
    · subst isActing
      exact ⟨_, Option.some.inj (ready.1.symm.trans found) ▸ here⟩
    · cases gone.symm.trans (SortedMap.get?_erase_eq_some_iff.2 ⟨isActing, found⟩)
  | outside may answers =>
    rw [keepCopies_threads, answers.threads] at notThere
    exact absurd known notThere
  | _ => exact absurd (stays known) notThere

/-- A thread is left alone by a step, or it has ended, or it goes on by the next action of its script. -/
theorem Step.proceeds : after.threads.get? id = some thread ∨ (∃ value, thread.script = .done value) ∨
    ∃ now, after.threads.get? id = some now ∧ now.place = thread.place ∧
      ∃ acts, thread.script.Proceeds (s.places.get? thread.place = some ·) (after.places.get? thread.place = some ·)
        acts now.script := by
  cases there : after.threads.get? id with
  | none => exact .inr (.inl (step.ended_of_gone found there))
  | some now =>
    have isSame {other : Thread σ Job Result} (earlier : s.threads.get? id = some other) : other = thread :=
      Option.some.inj (earlier.symm.trans found)
    rcases step.thread_proceeds there with earlier | begins | ⟨other, earlier, place, _, acts, proceeds⟩
    · exact .inl (congrArg some (isSame earlier))
    · rcases begins.before with isNew | ⟨other, value, earlier, ended⟩
      · exact absurd isNew (Nat.not_le_of_lt old)
      · exact .inr (.inl ⟨value, isSame earlier ▸ ended⟩)
    · obtain rfl := isSame earlier
      exact .inr (.inr ⟨now, rfl, place.symm, acts, proceeds⟩)

/-- A thread that is about to change its place and does something does just this. -/
theorem Step.of_step {permits : σ → Bool} {change : σ → σ} {next : σ → Script σ Job (Job ⊕ Result)}
    (here : thread.script = .step permits change next) (acted : after.threads.get? id ≠ some thread) :
    ∃ state, s.places.get? thread.place = some state ∧ event = .inner ∧
      after = (s.setPlace thread.place (change state)).goOn id { thread with script := next state } := by
  -- whoever else acts leaves the thread alone
  have elsewhere {threads : SortedMap Nat (Thread σ Job Result)} {acting : Nat} {other : Thread σ Job Result}
      (now : Thread σ Job Result) (same : threads = s.threads) (there : s.threads.get? acting = some other)
      (differs : other.script ≠ thread.script) : (threads.insert acting now).get? id = some thread := by
    have ne : id ≠ acting := by
      rintro rfl
      exact differs (congrArg Thread.script (Option.some.inj (there.symm.trans found)))
    rw [SortedMap.get?_insert_of_ne _ ne, same]
    exact found
  cases step with
  | @change acting other permitsToo changeToo nextToo state ready isHere atPlace permitted =>
    by_cases isActing : id = acting
    · subst isActing
      obtain rfl := Option.some.inj (ready.1.symm.trans found)
      obtain ⟨rfl, rfl, rfl⟩ := Script.step.inj (isHere.symm.trans here)
      exact ⟨state, atPlace, rfl, rfl⟩
    · refine absurd ?_ acted
      exact (SortedMap.get?_insert_of_ne _ isActing _).trans found
  | ask ready isHere answers => exact absurd (elsewhere _ answers.threads ready.1 (by simp [isHere, here])) acted
  | sleep ready isHere => exact absurd (elsewhere _ rfl ready.1 (by simp [isHere, here])) acted
  | spawn ready isHere =>
    exact absurd ((get?_launch (by exact old)).trans (elsewhere _ rfl ready.1 (by simp [isHere, here]))) acted
  | gather ready isHere =>
    exact absurd ((get?_launchAll (by exact old)).trans (elsewhere _ rfl ready.1 (by simp [isHere, here]))) acted
  | follow ready isHere => exact absurd (elsewhere _ rfl ready.1 (by simp [isHere, here])) acted
  | @finish acting other result ready isHere =>
    refine absurd (SortedMap.get?_erase_eq_some_iff.2 ⟨?_, found⟩) acted
    rintro rfl
    obtain rfl := Option.some.inj (ready.1.symm.trans found)
    cases isHere.symm.trans here
  | begin => exact absurd ((get?_launch old).trans found) acted
  | outside may answers =>
    rw [keepCopies_threads, answers.threads] at acted
    exact absurd found acted

end

/-! ### Runs over which a thread is followed -/

theorem started_le_launchAll {place : String} {jobs : List Job} :
    s.started ≤ (s.launchAll behaviour place jobs).started := by
  induction jobs generalizing s with
  | nil => exact Nat.le_refl _
  | cons job rest ih => exact Nat.le_of_succ_le (ih (s := s.launch behaviour place job))

theorem Step.started_le (step : Step behaviour asked s event after) : s.started ≤ after.started := by
  cases step with
  | ask ready here answers => exact Nat.le_of_eq answers.started.symm
  | @gather id thread => exact started_le_launchAll (s := s.goOn id _)
  | spawn | begin => exact Nat.le_succ _
  | outside may answers => exact Nat.le_of_eq (answers.started.symm.trans (keepCopies_started ..).symm)
  | _ => exact Nat.le_refl _

theorem Run.started_le (run : Run behaviour asked first trace last) : first.started ≤ last.started := by
  induction run with
  | refl => exact Nat.le_refl _
  | snoc _ step ih => exact Nat.le_trans ih step.started_le

/-- A place stays a place. -/
theorem Step.place_stays (step : Step behaviour asked s event after) {place : String}
    (known : s.places.contains place = true) : after.places.contains place = true := by
  cases step with
  | ask ready here answers => exact answers.places ▸ known
  | change => exact SortedMap.contains_insert_of_contains known
  | gather =>
    rw [launchAll_places]
    exact known
  | outside may answers =>
    rw [keepCopies_places, answers.places]
    exact known
  | _ => exact known

theorem Run.place_stays (run : Run behaviour asked first trace last) {place : String} {state : σ}
    (found : first.places.get? place = some state) : ∃ now, last.places.get? place = some now := by
  suffices known : last.places.contains place = true from Option.isSome_iff_exists.1 known
  induction run with
  | refl => exact Option.isSome_iff_exists.2 ⟨state, found⟩
  | snoc _ step ih => exact step.place_stays ih

/-- A thread that brings something about is still to do so, or has done so. -/
theorem Run.brings (run : Run behaviour asked first trace last) {id : Nat} {thread : Thread σ Job Result}
    {goal : σ → Prop} (old : id < first.started) (found : first.threads.get? id = some thread)
    (brings : thread.script.Brings goal) :
    (∃ state, Visits behaviour asked first last thread.place state ∧ goal state) ∨
      ∃ now, last.threads.get? id = some now ∧ now.place = thread.place ∧ now.script.Brings goal := by
  induction run with
  | refl => exact .inr ⟨thread, found, rfl, brings⟩
  | @snoc s after trace event before step ih =>
    rcases ih with ⟨state, visits, reached⟩ | ⟨now, there, place, brings⟩
    · exact .inl ⟨state, visits.step step, reached⟩
    · rcases step.proceeds (Nat.lt_of_lt_of_le old before.started_le) there with
        same | ⟨value, ended⟩ | ⟨next, goesOn, stays, acts, proceeds⟩
      · exact .inr ⟨now, same, place, brings⟩
      · rw [ended] at brings
        exact brings.elim
      · rcases brings.proceeds proceeds with ⟨state, here, reached⟩ | brings
        · exact .inl ⟨state, ⟨_, after, [], before.snoc step, .refl _, place ▸ here⟩, reached⟩
        · exact .inr ⟨next, goesOn, stays.trans place, brings⟩

/-! ### What is seen along a run -/

/-- A run, and the different values that something takes along it, one after another. -/
inductive Takes (behaviour : Machine.Behaviour σ Job Result) (asked : Job → Prop) {Value : Type}
    (look : Interleaving σ Job Result → Value) (first : Interleaving σ Job Result) :
    List (Event Job Result) → Interleaving σ Job Result → List Value → Prop
  | start : Takes behaviour asked look first [] first [look first]
  | same {trace values s event after} (earlier : Takes behaviour asked look first trace s values)
      (step : Step behaviour asked s event after) (isSame : look after = look s) :
      Takes behaviour asked look first (trace ++ [event]) after values
  | other {trace values s event after} (earlier : Takes behaviour asked look first trace s values)
      (step : Step behaviour asked s event after) (differs : look after ≠ look s) :
      Takes behaviour asked look first (trace ++ [event]) after (values ++ [look after])

section

variable {Value : Type} {look : Interleaving σ Job Result → Value} {values : List Value}

theorem Takes.run (takes : Takes behaviour asked look first trace s values) : Run behaviour asked first trace s := by
  induction takes with
  | start => exact .refl _
  | same _ step _ ih => exact ih.snoc step
  | other _ step _ ih => exact ih.snoc step

theorem Run.takes (run : Run behaviour asked first trace s) (look : Interleaving σ Job Result → Value) :
    ∃ values, Takes behaviour asked look first trace s values := by
  induction run with
  | refl => exact ⟨_, .start⟩
  | @snoc s after _ _ _ step ih =>
    obtain ⟨values, takes⟩ := ih
    by_cases isSame : look after = look s
    · exact ⟨values, takes.same step isSame⟩
    · exact ⟨_, takes.other step isSame⟩

end

end Interleaving

end LeaseFleet
