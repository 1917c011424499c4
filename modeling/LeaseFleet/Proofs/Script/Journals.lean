import LeaseFleet.Proofs.Script.Protocol

/-!
# Journals

What a script does is written down act by act, the last act first. Rules about what may come after
what are a protocol whose marks are these journals (`recorded`), so that the lemmas on scripts one
after another serve here too. Whatever a script has done that follows the rules, each of its acts was
open after the acts before it (`Follows.plays`).

A part of a script of which only the kinds of acts matter, and not their order, is held to rules
without marks (`only`); such a part lengthens the journal by acts of these kinds (`Only.recorded`).
-/

namespace LeaseFleet

/-- What shows of a script: a question with its answer, or the state that it found and left. -/
inductive Act (σ : Type) where
  | asked (query : Query) (reply : query.Reply)
  | changed (found now : σ)

/-- The acts of a script, the last one first. -/
abbrev Journal (σ : Type) := List (Act σ)

/-- A state that was found is as expected. -/
def Act.Seen {σ : Type} (sees : σ → Prop) : Act σ → Prop
  | asked _ _ => True
  | changed found _ => sees found

theorem Act.seen_of_any {σ : Type} (act : Act σ) : act.Seen fun _ => True := by
  cases act <;> trivial

/-- An attempt of a store call, or the choice of a pause before the next attempt. -/
def Act.Attempts {σ : Type} (call : StoreCall) : Act σ → Prop
  | asked query _ => query = .store call ∨ ∃ low high, query = .draw low high
  | changed _ _ => False

/-- What holds of an attempt and of the choice of a pause holds of both. -/
@[elab_as_elim]
theorem Act.Attempts.elim {σ : Type} {call : StoreCall} {motive : Act σ → Prop} {act : Act σ}
    (attempts : act.Attempts call) (called : ∀ reply, motive (.asked (.store call) reply))
    (drawn : ∀ low high reply, motive (.asked (.draw low high) reply)) : motive act := by
  cases act with
  | changed => exact False.elim attempts
  | asked query reply =>
    rcases attempts with rfl | ⟨low, high, rfl⟩
    · exact called reply
    · exact drawn low high reply

/-- What was read off the clock, if it was asked. -/
def Act.reading? {σ : Type} : Act σ → Option Nat
  | asked .clock time => some time
  | _ => none

/-- The clock never goes back: what was read later is no less. -/
def Journal.InTime {σ : Type} (past : Journal σ) : Prop :=
  (past.filterMap Act.reading?).Pairwise fun later earlier => earlier ≤ later

instance {σ : Type} (past : Journal σ) : Decidable past.InTime :=
  inferInstanceAs (Decidable (List.Pairwise _ _))

theorem Journal.InTime.le {σ : Type} (later : Journal σ) {earlier : Journal σ} {now since : Nat}
    (inTime : Journal.InTime (later ++ .asked .clock now :: earlier))
    (read : .asked .clock since ∈ earlier) : since ≤ now := by
  unfold InTime at inTime
  rw [List.filterMap_append, List.pairwise_append] at inTime
  have fromThen : ((.asked .clock now :: earlier : Journal σ).filterMap Act.reading?) =
      now :: earlier.filterMap Act.reading? := rfl
  rw [fromThen, List.pairwise_cons] at inTime
  exact inTime.2.1.1 since (List.mem_filterMap.2 ⟨_, read, rfl⟩)

/-- A later journal, with acts of one kind in between. -/
def Journal.Grows {σ : Type} (each : Act σ → Prop) (past after : Journal σ) : Prop :=
  ∃ new, after = new ++ past ∧ ∀ act ∈ new, each act

namespace Journal.Grows

variable {σ : Type} {each more : Act σ → Prop} {past between after : Journal σ}

theorem refl (past : Journal σ) : past.Grows each past := ⟨[], rfl, by simp⟩

theorem cons {act : Act σ} (kind : each act) (grows : past.Grows each between) :
    past.Grows each (act :: between) := by
  obtain ⟨new, rfl, kinds⟩ := grows
  exact ⟨act :: new, rfl, List.forall_mem_cons.2 ⟨kind, kinds⟩⟩

theorem trans (first : past.Grows each between) (second : between.Grows each after) :
    past.Grows each after := by
  obtain ⟨new, rfl, kinds⟩ := first
  obtain ⟨newer, rfl, others⟩ := second
  refine ⟨newer ++ new, by simp, fun act mem => ?_⟩
  exact (List.mem_append.1 mem).elim (others act) (kinds act)

theorem suffix (grows : past.Grows each after) : past <:+ after := by
  obtain ⟨new, rfl, _⟩ := grows
  exact List.suffix_append ..

theorem imp (grows : past.Grows each after) (weaken : ∀ act, each act → more act) :
    past.Grows more after := by
  obtain ⟨new, same, kinds⟩ := grows
  exact ⟨new, same, fun act mem => weaken act (kinds act mem)⟩

end Journal.Grows

namespace Script

variable {σ Job α β : Type}

/-- An action that shows. -/
inductive Does : Script σ Job α → Act σ → Script σ Job α → Prop
  | ask (query : Query) (next : query.Reply → Script σ Job α) (reply : query.Reply) :
      Does (.ask query next) (.asked query reply) (next reply)
  | step {ready : σ → Bool} (change : σ → σ) (next : σ → Script σ Job α) {found : σ}
      (permitted : ready found = true) :
      Does (.step ready change next) (.changed found (change found)) (next found)

/-- An action that does not show. -/
inductive Idles : Script σ Job α → Script σ Job α → Prop
  | sleep (millis : Nat) (stopped : σ → Bool) (next : Bool → Script σ Job α) (complete : Bool) :
      Idles (.sleep millis stopped next) (next complete)
  | spawn (job : Job) (next : Script σ Job α) : Idles (.spawn job next) next
  | gather (jobs : List Job) (next : Script σ Job α) : Idles (.gather jobs next) next

/-- The next action of a script, what is written down of it, and what is left. The state that a change
finds is one that is `here`, and the state that it leaves is one that is `there`. -/
inductive Proceeds (here there : σ → Prop) : Script σ Job α → Journal σ → Script σ Job α → Prop
  | ask (query : Query) (next : query.Reply → Script σ Job α) (reply : query.Reply) :
      Proceeds here there (.ask query next) [.asked query reply] (next reply)
  | step {ready : σ → Bool} {change : σ → σ} (next : σ → Script σ Job α) {state : σ} (found : here state)
      (permitted : ready state = true) (left : there (change state)) :
      Proceeds here there (.step ready change next) [.changed state (change state)] (next state)
  | sleep {millis : Nat} {stopped : σ → Bool} (next : Bool → Script σ Job α) {complete : Bool}
      (cutShort : complete = false → ∃ state, here state ∧ stopped state = true) :
      Proceeds here there (.sleep millis stopped next) [] (next complete)
  | spawn (job : Job) (next : Script σ Job α) : Proceeds here there (.spawn job next) [] next
  | gather (jobs : List Job) (next : Script σ Job α) : Proceeds here there (.gather jobs next) [] next

/-- What a script has done so far, and what is left of it. -/
inductive Plays (script : Script σ Job α) : Journal σ → Script σ Job α → Prop
  | start : Plays script [] script
  | idle {past : Journal σ} {between rest : Script σ Job α} (earlier : Plays script past between)
      (idles : between.Idles rest) : Plays script past rest
  | act {past : Journal σ} {act : Act σ} {between rest : Script σ Job α}
      (earlier : Plays script past between) (does : between.Does act rest) :
      Plays script (act :: past) rest

/-- What the script does from a state to its end, if every question is answered alike each time. -/
def answered (answer : (query : Query) → query.Reply) :
    Script σ Job α → σ → Journal σ → Option (Journal σ × α)
  | done value, _, past => some (past, value)
  | ask query next, state, past =>
    (next (answer query)).answered answer state (.asked query (answer query) :: past)
  | step ready change next, state, past =>
    if ready state then
      (next state).answered answer (change state) (.changed state (change state) :: past)
    else none
  | sleep _ _ next, state, past => (next true).answered answer state past
  | spawn _ next, state, past | gather _ next, state, past => next.answered answer state past

/-- What was done up to some act was played, too. -/
theorem Plays.upTo {script rest : Script σ Job α} {past before : Journal σ}
    (plays : script.Plays past rest) (part : before <:+ past) :
    ∃ between, script.Plays before between := by
  induction plays with
  | start => exact ⟨script, List.suffix_nil.1 part ▸ .start⟩
  | idle _ _ ih => exact ih part
  | act earlier does ih =>
    rcases List.suffix_cons_iff.1 part with rfl | part
    · exact ⟨_, earlier.act does⟩
    · exact ih part

theorem plays_of_answered {answer : (query : Query) → query.Reply} {whole : Script σ Job α}
    {script : Script σ Job α} {state : σ} {past after : Journal σ} {value : α}
    (before : whole.Plays past script)
    (ends : script.answered answer state past = some (after, value)) :
    whole.Plays after (.done value) := by
  induction script generalizing state past with
  | done result =>
    obtain ⟨rfl, rfl⟩ := Prod.mk.inj (Option.some.inj ends)
    exact before
  | ask query next ih => exact ih _ (before.act (.ask query next _)) ends
  | step ready change next ih =>
    unfold answered at ends
    split at ends
    · rename_i permitted
      exact ih _ (before.act (.step change next permitted)) ends
    · cases ends
  | sleep millis stopped next ih => exact ih true (before.idle (.sleep millis stopped next true)) ends
  | spawn job next ih => exact ih (before.idle (.spawn job next)) ends
  | gather jobs next ih => exact ih (before.idle (.gather jobs next)) ends

end Script

/-! ## Rules on journals -/

namespace Protocol

variable {σ Job : Type}

/-- The rules by which an act may come after a journal. -/
def recorded (sees : σ → Prop) (may : Journal σ → Act σ → Prop) : Protocol σ Job (Journal σ) where
  hears _ _ := True
  sees := sees
  asks past query reply after := may past (.asked query reply) ∧ after = .asked query reply :: past
  steps past found now after := may past (.changed found now) ∧ after = .changed found now :: past
  starts past _ _ after := after = past

/-- The rules that leave acts of one kind open, at any time. -/
def only (sees : σ → Prop) (each : Act σ → Prop) : Protocol σ Job Unit where
  hears _ _ := True
  sees := sees
  asks _ query reply _ := each (.asked query reply)
  steps _ found now _ := each (.changed found now)
  starts _ _ _ _ := True

theorem StartsAll.recorded_eq {sees : σ → Prop} {may : Journal σ → Act σ → Prop} {jobs : List Job}
    {children : List (Journal σ)} {past after : Journal σ}
    (started : (recorded sees may).StartsAll past jobs children after) : after = past := by
  induction started with
  | nil => rfl
  | cons first _ ih => exact ih.trans first

theorem startsAll_recorded (sees : σ → Prop) (may : Journal σ → Act σ → Prop) (jobs : List Job)
    (past : Journal σ) :
    ∃ children after, (recorded sees may).StartsAll past jobs children after ∧ after = past := by
  induction jobs with
  | nil => exact ⟨[], past, .nil past, rfl⟩
  | cons job rest ih =>
    obtain ⟨children, after, started, same⟩ := ih
    exact ⟨past :: children, after, .cons rfl started, same⟩

theorem startsAll_only (sees : σ → Prop) (each : Act σ → Prop) (jobs : List Job) :
    ∃ children after, (only sees each).StartsAll () jobs children after := by
  induction jobs with
  | nil => exact ⟨[], (), .nil ()⟩
  | cons job rest ih =>
    obtain ⟨children, after, started⟩ := ih
    exact ⟨() :: children, after, .cons trivial started⟩

end Protocol

namespace Script

variable {σ Job α β : Type} {sees : σ → Prop} {may : Journal σ → Act σ → Prop}
  {each : Act σ → Prop} {past : Journal σ}

theorem Follows.idles {wanted : Journal σ → α → Prop} {script rest : Script σ Job α}
    (follows : script.Follows (.recorded sees may) wanted past) (idles : script.Idles rest) :
    rest.Follows (.recorded sees may) wanted past := by
  cases idles with
  | sleep millis stopped next complete => exact follows complete
  | spawn job next =>
    obtain ⟨child, after, rfl, rest⟩ := follows
    exact rest
  | gather jobs next =>
    obtain ⟨children, after, started, rest⟩ := follows
    exact started.recorded_eq ▸ rest

/-- An act of a script that follows the rules is open, and the rest of the script follows them. -/
theorem Follows.does {wanted : Journal σ → α → Prop} {script rest : Script σ Job α} {act : Act σ}
    (follows : script.Follows (.recorded sees may) wanted past) (does : script.Does act rest)
    (seen : act.Seen sees) :
    may past act ∧ rest.Follows (.recorded sees may) wanted (act :: past) := by
  cases does with
  | ask query next reply =>
    obtain ⟨after, ⟨isOpen, rfl⟩, rest⟩ := follows reply trivial
    exact ⟨isOpen, rest⟩
  | step change next permitted =>
    obtain ⟨after, ⟨isOpen, rfl⟩, rest⟩ := follows _ seen permitted
    exact ⟨isOpen, rest⟩

/-- Whatever a script has done that follows the rules, each act was open after those before it. -/
theorem Follows.plays {wanted : Journal σ → α → Prop} {script rest : Script σ Job α}
    (follows : script.Follows (.recorded sees may) wanted []) (plays : script.Plays past rest)
    (seen : ∀ act ∈ past, act.Seen sees) :
    rest.Follows (.recorded sees may) wanted past ∧
      ∀ ⦃act : Act σ⦄ ⦃earlier : Journal σ⦄, act :: earlier <:+ past → may earlier act := by
  induction plays with
  | start => exact ⟨follows, fun _ _ found => absurd (List.suffix_nil.1 found) (List.cons_ne_nil _ _)⟩
  | idle _ idles ih =>
    obtain ⟨rest, opened⟩ := ih seen
    exact ⟨rest.idles idles, opened⟩
  | act _ does ih =>
    obtain ⟨last, before⟩ := List.forall_mem_cons.1 seen
    obtain ⟨rest, opened⟩ := ih before
    obtain ⟨isOpen, rest⟩ := rest.does does last
    refine ⟨rest, fun _ _ found => ?_⟩
    rcases List.suffix_cons_iff.1 found with same | found
    · obtain ⟨rfl, rfl⟩ := List.cons.inj same
      exact isOpen
    · exact opened found

/-! ## Elementary scripts -/

/-- A question, written down with its answer. -/
theorem query_recorded {wanted : Journal σ → β → Prop} {question : Query}
    {next : question.Reply → Script σ Job β} (isOpen : ∀ reply, may past (.asked question reply))
    (rest : ∀ reply,
      (next reply).Follows (.recorded sees may) wanted (.asked question reply :: past)) :
    ((Script.query question).bind next).Follows (.recorded sees may) wanted past :=
  fun reply _ => ⟨_, ⟨isOpen reply, rfl⟩, rest reply⟩

/-- A change of the state, written down with the state that was found. -/
theorem step_recorded {wanted : Journal σ → β → Prop} {ready : σ → Bool} {change : σ → σ}
    {next : σ → Script σ Job β} (isOpen : ∀ state, sees state → may past (.changed state (change state)))
    (rest : ∀ state, sees state →
      (next state).Follows (.recorded sees may) wanted (.changed state (change state) :: past)) :
    ((Script.step ready change .done).bind next).Follows (.recorded sees may) wanted past :=
  fun state seen _ => ⟨_, ⟨isOpen state seen, rfl⟩, rest state seen⟩

theorem change_recorded {wanted : Journal σ → β → Prop} {change : σ → σ}
    {next : Unit → Script σ Job β} (isOpen : ∀ state, sees state → may past (.changed state (change state)))
    (rest : ∀ state, sees state →
      (next ()).Follows (.recorded sees may) wanted (.changed state (change state) :: past)) :
    ((Script.change change).bind next).Follows (.recorded sees may) wanted past :=
  fun state seen _ => ⟨_, ⟨isOpen state seen, rfl⟩, rest state seen⟩

/-! ## Parts of which only the kinds of acts matter -/

/-- All acts of the script are of one kind, and its value is as wanted. -/
def Only (sees : σ → Prop) (each : Act σ → Prop) (wanted : α → Prop) (script : Script σ Job α) : Prop :=
  script.Follows (.only sees each) (fun _ => wanted) ()

/-- All acts of the script are of one kind. -/
abbrev Keeps (sees : σ → Prop) (each : Act σ → Prop) (script : Script σ Job α) : Prop :=
  script.Only sees each fun _ => True

theorem Only.bind {mid : α → Prop} {wanted : β → Prop} {script : Script σ Job α}
    {following : α → Script σ Job β} (first : script.Only sees each mid)
    (rest : ∀ value, mid value → (following value).Only sees each wanted) :
    (script.bind following).Only sees each wanted :=
  (follows_bind ..).2 (Follows.imp first fun _ => rest)

theorem Only.imp {wanted weaker : α → Prop} {script : Script σ Job α}
    (first : script.Only sees each wanted) (weaken : ∀ value, wanted value → weaker value) :
    script.Only sees each weaker :=
  Follows.imp first fun _ => weaken

theorem query_only {question : Query} (kind : ∀ reply, each (.asked question reply)) :
    (Script.query question : Script σ Job _).Keeps sees each :=
  fun reply _ => ⟨(), kind reply, trivial⟩

theorem step_only {wanted : β → Prop} {ready : σ → Bool} {change : σ → σ}
    {next : σ → Script σ Job β} (kind : ∀ state, sees state → each (.changed state (change state)))
    (rest : ∀ state, sees state → (next state).Only sees each wanted) :
    ((Script.step ready change .done).bind next).Only sees each wanted :=
  fun state seen _ => ⟨(), kind state seen, rest state seen⟩

theorem change_only {change : σ → σ} (kind : ∀ state, sees state → each (.changed state (change state))) :
    (Script.change change : Script σ Job Unit).Keeps sees each :=
  fun state seen _ => ⟨(), kind state seen, trivial⟩

theorem sleep_only (millis : Nat) (stopped : σ → Bool) :
    (Script.sleep millis stopped .done : Script σ Job Bool).Keeps sees each :=
  fun _ => trivial

theorem spawnAll_only (jobs : List Job) :
    (Script.spawnAll jobs : Script σ Job Unit).Keeps sees each := by
  induction jobs with
  | nil => trivial
  | cons job rest ih => exact ⟨(), (), trivial, ih⟩

theorem gather_only {wanted : β → Prop} (jobs : List Job) {next : Script σ Job β}
    (rest : next.Only sees each wanted) : (Script.gather jobs next).Only sees each wanted := by
  obtain ⟨children, after, started⟩ := Protocol.startsAll_only sees each jobs
  exact ⟨children, after, started, rest⟩

/-- The script lengthens a journal by acts of its kind, if these are open there. -/
theorem Only.recorded {wanted : α → Prop} {script : Script σ Job α}
    (keeps : script.Only sees each wanted)
    (isOpen : ∀ after act, past.Grows each after → each act → may after act) :
    script.Follows (.recorded sees may) (fun after value => past.Grows each after ∧ wanted value)
      past := by
  -- the journal grows within the induction, from the one at the start
  suffices along : ∀ between, past.Grows each between →
      script.Follows (.recorded sees may) (fun after value => past.Grows each after ∧ wanted value)
        between from along past (.refl past)
  induction script with
  | done value => exact fun between grows => ⟨grows, keeps⟩
  | ask query next ih =>
    intro between grows reply _
    obtain ⟨_, kind, rest⟩ := keeps reply trivial
    exact ⟨_, ⟨isOpen _ _ grows kind, rfl⟩, ih reply rest _ (grows.cons kind)⟩
  | step ready change next ih =>
    intro between grows state seen permitted
    obtain ⟨_, kind, rest⟩ := keeps state seen permitted
    exact ⟨_, ⟨isOpen _ _ grows kind, rfl⟩, ih state rest _ (grows.cons kind)⟩
  | sleep millis stopped next ih =>
    exact fun between grows complete => ih complete (keeps complete) _ grows
  | spawn job next ih =>
    obtain ⟨_, _, _, rest⟩ := keeps
    exact fun between grows => ⟨between, between, rfl, ih rest _ grows⟩
  | gather jobs next ih =>
    obtain ⟨_, _, _, rest⟩ := keeps
    intro between grows
    have started : ∃ children after, (Protocol.recorded sees may : Protocol σ Job _).StartsAll between jobs
        children after ∧ after = between := Protocol.startsAll_recorded sees may jobs between
    obtain ⟨children, after, started, same⟩ := started
    exact ⟨children, after, started, same ▸ ih rest _ grows⟩

/-- After such a part, the rest is held to the rules from a longer journal. -/
theorem Only.recorded_bind {mid : α → Prop} {wanted : Journal σ → β → Prop} {script : Script σ Job α}
    {following : α → Script σ Job β} (keeps : script.Only sees each mid)
    (isOpen : ∀ after act, past.Grows each after → each act → may after act)
    (rest : ∀ after value, past.Grows each after → mid value →
      (following value).Follows (.recorded sees may) wanted after) :
    (script.bind following).Follows (.recorded sees may) wanted past :=
  (follows_bind ..).2 ((keeps.recorded isOpen).imp fun after value ⟨grows, holds⟩ =>
    rest after value grows holds)

end Script

/-! ## Repeated store calls -/

namespace RetryPolicy

variable {σ Job : Type} {sees : σ → Prop} {may : Journal σ → Act σ → Prop} {each : Act σ → Prop}
  {past : Journal σ} {call : StoreCall}

/-- A repeated store call ends with the answer of its last attempt, or with an error. -/
theorem store_recorded {wanted : Journal σ → Except WorkerError call.Answer → Prop}
    (policy : RetryPolicy) (stopped : σ → Bool)
    (isOpen : ∀ after act, past.Grows (Act.Attempts call) after → act.Attempts call → may after act)
    (answered : ∀ before answer, past.Grows (Act.Attempts call) before →
      wanted (.asked (.store call) (.ok answer) :: before) (.ok answer))
    (failed : ∀ after reason, past.Grows (Act.Attempts call) after → wanted after (.error reason)) :
    (policy.store stopped call : Script σ Job _).Follows (.recorded sees may) wanted past := by
  have called (between : Journal σ) (grows : past.Grows (Act.Attempts call) between)
      (reply : call.Reply) : past.Grows (Act.Attempts call) (.asked (.store call) reply :: between) :=
    grows.cons (.inl rfl)
  suffices attempts : ∀ left earlier between, past.Grows (Act.Attempts call) between →
      (policy.attempts stopped (do return (← Script.call call).mapError WorkerError.store)
        left earlier : Script σ Job _).Follows (.recorded sees may) wanted between from
    attempts _ _ past (.refl past)
  intro left
  induction left with
  | zero =>
    intro earlier between grows reply _
    refine ⟨_, ⟨isOpen _ _ grows (.inl rfl), rfl⟩, ?_⟩
    cases reply with
    | ok answer => exact answered between answer grows
    | error error => exact failed _ _ (called between grows _)
  | succ left ih =>
    intro earlier between grows reply _
    refine ⟨_, ⟨isOpen _ _ grows (.inl rfl), rfl⟩, ?_⟩
    have grown := called between grows reply
    cases reply with
    | ok answer => exact answered between answer grows
    | error error =>
      show ((if (WorkerError.store error).isRetryable then _ else _ :
        Script σ Job (Except WorkerError call.Answer))).Follows _ _ _
      split
      · refine Script.query_recorded (fun pause => isOpen _ _ grown (.inr ⟨_, _, rfl⟩)) fun pause => ?_
        have paused : past.Grows (Act.Attempts call) (.asked (.draw _ _) pause :: _) :=
          grown.cons (.inr ⟨_, _, rfl⟩)
        intro complete
        cases complete with
        | true => exact ih (earlier + 1) _ paused
        | false => exact failed _ _ paused
      · exact failed _ _ grown

/-- A repeated store call, of which only the kinds of acts matter. -/
theorem store_only (policy : RetryPolicy) (stopped : σ → Bool)
    (kind : ∀ act : Act σ, act.Attempts call → each act) :
    (policy.store stopped call : Script σ Job _).Keeps sees each := by
  refine policy.store_follows stopped ?_ ?_ fun low high reply => kind _ (.inr ⟨_, _, rfl⟩)
  · exact fun answer _ => ⟨(), kind _ (.inl rfl), trivial⟩
  · exact fun error _ => ⟨kind _ (.inl rfl), fun _ => trivial⟩

end RetryPolicy

end LeaseFleet
