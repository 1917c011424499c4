import LeaseFleet.Coordinator.Lifecycle
import LeaseFleet.Proofs.Assignment.ContestedMoves
import LeaseFleet.Proofs.Script.Journals
import LeaseFleet.Proofs.Interleaving.Schedules
import LeaseFleet.Proofs.Store.InMemoryMap

/-!
# Scripts among others

`Script.Enacts` says what a script does from its beginning to its end, act by act, the oldest one first.
Jobs that it waits for are enacted side by side, in any order (`Interleaves`), and their acts are among
those of the script.

The acts take place one after another in scenes, which have a state, a lease table, a time and a number of
tokens that were given. Before each act and after the last one others may change the scene, within bounds
that are left open here (`Scene.Through`). `Script.Leads` takes both together: a script leads from one scene
to another one, and it falls into parts as the script does (`Script.Leads.of_bind`).

A store call that is repeated after failures is called some times, of which all but the last one fail in a
way that may pass (`RetryPolicy.enacts_store`).
-/

namespace LeaseFleet

/-! ## Side by side -/

/-- Lists that are worked off side by side: what comes next is the head of any of them. -/
inductive Interleaves {α : Type} : List (List α) → List α → Prop
  | nil {lists : List (List α)} (ended : ∀ list ∈ lists, list = []) : Interleaves lists []
  | cons {lists : List (List α)} {i : Nat} {head : α} {rest all : List α}
      (next : lists[i]? = some (head :: rest)) (later : Interleaves (lists.set i rest) all) :
      Interleaves lists (head :: all)

namespace Interleaves

variable {α β : Type} {lists : List (List α)} {all : List α}

theorem mem (side : Interleaves lists all) {entry : α} (among : entry ∈ all) :
    ∃ list ∈ lists, entry ∈ list := by
  induction side with
  | nil => cases among
  | cons next _ ih =>
    have known := List.mem_of_getElem? next
    obtain rfl | among := List.mem_cons.1 among
    · exact ⟨_, known, List.mem_cons_self⟩
    · obtain ⟨list, isList, among⟩ := ih among
      obtain isList | rfl := List.mem_or_eq_of_mem_set isList
      · exact ⟨list, isList, among⟩
      · exact ⟨_, known, List.mem_cons_of_mem _ among⟩

/-- One more list may come before all others. -/
theorem append_left (list : List α) (side : Interleaves lists all) :
    Interleaves (list :: lists) (list ++ all) := by
  induction list with
  | nil =>
    induction side with
    | nil ended => exact .nil (List.forall_mem_cons.2 ⟨rfl, ended⟩)
    | @cons lists i head rest all next _ ih => exact .cons (i := i + 1) next ih
  | cons head list ih => exact .cons (i := 0) rfl ih

/-- The lists may be worked off one after another. -/
theorem flatten (lists : List (List α)) : Interleaves lists lists.flatten := by
  induction lists with
  | nil => exact .nil (by simp)
  | cons list lists ih => exact ih.append_left list

/-- Each list keeps its order. -/
theorem sublist (side : Interleaves lists all) {i : Nat} {list : List α} (here : lists[i]? = some list) :
    list.Sublist all := by
  induction side generalizing list with
  | nil ended => exact ended list (List.mem_of_getElem? here) ▸ List.nil_sublist _
  | @cons lists j head rest all next _ ih =>
    by_cases same : j = i
    · subst same
      obtain rfl := Option.some.inj (here.symm.trans next)
      obtain ⟨known, _⟩ := List.getElem?_eq_some_iff.1 next
      exact (ih (List.getElem?_set_self known)).cons_cons head
    · exact (ih (by rwa [List.getElem?_set_ne same])).cons head

/-- What holds of all other lists holds of them when the first entry of one is gone. -/
theorem others_set {P : List α → Prop} {i j : Nat} {head : α} {rest : List α}
    (next : lists[j]? = some (head :: rest)) (tail : P (head :: rest) → P rest)
    (others : ∀ k list, k ≠ i → lists[k]? = some list → P list) :
    ∀ k list, k ≠ i → (lists.set j rest)[k]? = some list → P list := by
  intro k list differs here
  by_cases same : j = k
  · subst same
    obtain ⟨known, _⟩ := List.getElem?_eq_some_iff.1 next
    obtain rfl := Option.some.inj (here.symm.trans (List.getElem?_set_self known))
    exact tail (others j _ differs next)
  · exact others k list differs (by rwa [List.getElem?_set_ne same] at here)

/-- What only one of the lists has is the same in all of them together. -/
theorem filterMap_eq (side : Interleaves lists all) (pick : α → Option β) {i : Nat} {list : List α}
    (here : lists[i]? = some list)
    (others : ∀ j other, j ≠ i → lists[j]? = some other → other.filterMap pick = []) :
    all.filterMap pick = list.filterMap pick := by
  induction side generalizing list with
  | nil ended => rw [ended list (List.mem_of_getElem? here)]
  | @cons lists j head rest all next _ ih =>
    have tail (none : (head :: rest).filterMap pick = []) : rest.filterMap pick = [] := by
      rw [List.filterMap_eq_nil_iff] at none ⊢
      exact fun entry mem => none entry (List.mem_cons_of_mem _ mem)
    have later := others_set next tail others
    by_cases same : j = i
    · subst same
      obtain rfl := Option.some.inj (here.symm.trans next)
      obtain ⟨known, _⟩ := List.getElem?_eq_some_iff.1 next
      rw [List.filterMap_cons, List.filterMap_cons, ih (List.getElem?_set_self known) later]
    · have none : pick head = none :=
        List.filterMap_eq_nil_iff.1 (others j _ same next) head List.mem_cons_self
      rw [List.filterMap_cons_none none]
      exact ih (by rwa [List.getElem?_set_ne same]) later

end Interleaves

/-! ## Enactments -/

/-- The store call of an act, with its answer. -/
def Act.called? {σ : Type} : Act σ → Option ((call : StoreCall) × call.Reply)
  | asked (.store call) reply => some ⟨call, reply⟩
  | _ => none

/-- The store calls among some acts, with their answers. -/
def calledIn {σ : Type} (acts : List (Act σ)) : List ((call : StoreCall) × call.Reply) :=
  acts.filterMap Act.called?

section

variable {σ : Type} (acts later : List (Act σ))

@[simp] theorem calledIn_nil : calledIn ([] : List (Act σ)) = [] := rfl

@[simp] theorem calledIn_changed (found now : σ) : calledIn (.changed found now :: acts) = calledIn acts :=
  rfl

@[simp] theorem calledIn_store (call : StoreCall) (reply : call.Reply) :
    calledIn (.asked (.store call) reply :: acts) = ⟨call, reply⟩ :: calledIn acts := rfl

@[simp] theorem calledIn_other {query : Query} {reply : query.Reply}
    (notCall : ∀ call, query ≠ .store call) : calledIn (.asked query reply :: acts) = calledIn acts := by
  refine List.filterMap_cons_none ?_
  unfold Act.called?
  split
  · rename_i call _ isCall
    obtain ⟨same, _⟩ := Act.asked.inj isCall
    exact absurd same (notCall call)
  · rfl

@[simp] theorem calledIn_append : calledIn (acts ++ later) = calledIn acts ++ calledIn later :=
  List.filterMap_append

theorem mem_calledIn {acts : List (Act σ)} {call : StoreCall} {reply : call.Reply} :
    ⟨call, reply⟩ ∈ calledIn acts ↔ .asked (.store call) reply ∈ acts := by
  refine List.mem_filterMap.trans ⟨?_, fun mem => ⟨_, mem, rfl⟩⟩
  rintro ⟨act, mem, called⟩
  unfold Act.called? at called
  split at called
  · obtain ⟨rfl, same⟩ := Sigma.mk.inj (Option.some.inj called)
    exact eq_of_heq same ▸ mem
  · cases called

end

namespace Script

variable {σ Job Result α β : Type}

/-- What a script does to its end, the oldest act first, and its value. What it starts beside does not
belong to it. -/
inductive Enacts (behaviour : Job → Script σ Job Result) :
    {α : Type} → Script σ Job α → List (Act σ) → α → Prop
  | done {α : Type} (value : α) : Enacts behaviour (.done value) [] value
  | ask {α : Type} {query : Query} {next : query.Reply → Script σ Job α} {acts : List (Act σ)} {value : α}
      (reply : query.Reply) (rest : Enacts behaviour (next reply) acts value) :
      Enacts behaviour (.ask query next) (.asked query reply :: acts) value
  | step {α : Type} {ready : σ → Bool} {change : σ → σ} {next : σ → Script σ Job α} {acts : List (Act σ)}
      {value : α} (found : σ) (permitted : ready found = true)
      (rest : Enacts behaviour (next found) acts value) :
      Enacts behaviour (.step ready change next) (.changed found (change found) :: acts) value
  | sleep {α : Type} {millis : Nat} {stopped : σ → Bool} {next : Bool → Script σ Job α}
      {acts : List (Act σ)} {value : α} (complete : Bool)
      (rest : Enacts behaviour (next complete) acts value) :
      Enacts behaviour (.sleep millis stopped next) acts value
  | spawn {α : Type} {job : Job} {next : Script σ Job α} {acts : List (Act σ)} {value : α}
      (rest : Enacts behaviour next acts value) : Enacts behaviour (.spawn job next) acts value
  | gather {α : Type} {jobs : List Job} {next : Script σ Job α} {parts : List (List (Act σ))}
      {results : List Result} {together acts : List (Act σ)} {value : α}
      (parts_length : parts.length = jobs.length) (results_length : results.length = jobs.length)
      (each : ∀ (i : Nat) job part result, jobs[i]? = some job → parts[i]? = some part →
        results[i]? = some result → Enacts behaviour (behaviour job) part result)
      (side : Interleaves parts together) (rest : Enacts behaviour next acts value) :
      Enacts behaviour (.gather jobs next) (together ++ acts) value

variable {behaviour : Job → Script σ Job Result} {acts : List (Act σ)}

theorem Enacts.of_done {value wanted : α} (enacts : (Script.done value).Enacts behaviour acts wanted) :
    acts = [] ∧ wanted = value := by
  cases enacts
  exact ⟨rfl, rfl⟩

theorem Enacts.of_bind {script : Script σ Job α} {following : α → Script σ Job β} {value : β}
    (enacts : (script.bind following).Enacts behaviour acts value) :
    ∃ before after between, script.Enacts behaviour before between ∧
      (following between).Enacts behaviour after value ∧ acts = before ++ after := by
  induction script generalizing acts with
  | done between => exact ⟨[], acts, between, .done between, enacts, rfl⟩
  | ask query next ih =>
    cases enacts with
    | ask reply rest =>
      obtain ⟨before, after, between, first, second, rfl⟩ := ih reply rest
      exact ⟨_, after, between, .ask reply first, second, rfl⟩
  | step ready change next ih =>
    cases enacts with
    | step found permitted rest =>
      obtain ⟨before, after, between, first, second, rfl⟩ := ih found rest
      exact ⟨_, after, between, .step found permitted first, second, rfl⟩
  | sleep millis stopped next ih =>
    cases enacts with
    | sleep complete rest =>
      obtain ⟨before, after, between, first, second, rfl⟩ := ih complete rest
      exact ⟨before, after, between, .sleep complete first, second, rfl⟩
  | spawn job next ih =>
    cases enacts with
    | spawn rest =>
      obtain ⟨before, after, between, first, second, rfl⟩ := ih rest
      exact ⟨before, after, between, .spawn first, second, rfl⟩
  | gather jobs next ih =>
    cases enacts with
    | gather parts_length results_length each side rest =>
      obtain ⟨before, after, between, first, second, rfl⟩ := ih rest
      exact ⟨_, after, between, .gather parts_length results_length each side first, second, by simp⟩

theorem enacts_query {question : Query} {next : question.Reply → Script σ Job α} {value : α} :
    ((Script.query question).bind next).Enacts behaviour acts value ↔
      ∃ reply rest, (next reply).Enacts behaviour rest value ∧ acts = .asked question reply :: rest := by
  constructor
  · intro enacts
    cases enacts with
    | ask reply rest => exact ⟨reply, _, rest, rfl⟩
  · rintro ⟨reply, rest, follows, rfl⟩
    exact .ask reply follows

theorem Enacts.of_query {question : Query} {next : question.Reply → Script σ Job α} {value : α}
    (enacts : ((Script.query question).bind next).Enacts behaviour acts value) :
    ∃ reply rest, (next reply).Enacts behaviour rest value ∧ acts = .asked question reply :: rest :=
  enacts_query.1 enacts

theorem enacts_step {ready : σ → Bool} {change : σ → σ} {next : σ → Script σ Job α} {value : α} :
    ((Script.step ready change .done).bind next).Enacts behaviour acts value ↔
      ∃ found rest, ready found = true ∧ (next found).Enacts behaviour rest value ∧
        acts = .changed found (change found) :: rest := by
  constructor
  · intro enacts
    cases enacts with
    | step found permitted rest => exact ⟨found, _, permitted, rest, rfl⟩
  · rintro ⟨found, rest, permitted, follows, rfl⟩
    exact .step found permitted follows

theorem Enacts.of_step {ready : σ → Bool} {change : σ → σ} {next : σ → Script σ Job α} {value : α}
    (enacts : ((Script.step ready change .done).bind next).Enacts behaviour acts value) :
    ∃ found rest, (next found).Enacts behaviour rest value ∧
      acts = .changed found (change found) :: rest := by
  obtain ⟨found, rest, _, follows, rfl⟩ := enacts_step.1 enacts
  exact ⟨found, rest, follows, rfl⟩

theorem Enacts.of_sleep {millis : Nat} {stopped : σ → Bool} {next : Bool → Script σ Job α} {value : α}
    (enacts : ((Script.sleep millis stopped .done).bind next).Enacts behaviour acts value) :
    ∃ complete, (next complete).Enacts behaviour acts value := by
  cases enacts with
  | sleep complete rest => exact ⟨complete, rest⟩

theorem Enacts.of_gather {jobs : List Job} {value : α} {wanted : α}
    (enacts : (Script.gather jobs (.done value)).Enacts behaviour acts wanted) :
    ∃ parts, parts.length = jobs.length ∧ Interleaves parts acts ∧
      ∀ (i : Nat) job part, jobs[i]? = some job → parts[i]? = some part →
        ∃ result, (behaviour job).Enacts behaviour part result := by
  cases enacts with
  | @gather _ _ _ parts results together _ _ parts_length results_length each side rest =>
    obtain ⟨rfl, _⟩ := rest.of_done
    refine ⟨parts, parts_length, by simpa using side, fun i job part isJob isPart => ?_⟩
    obtain ⟨known, _⟩ := List.getElem?_eq_some_iff.1 isJob
    have isResult := List.getElem?_eq_getElem (results_length ▸ known)
    exact ⟨_, each i job part _ isJob isPart isResult⟩

end Script

/-! ## Repeated calls -/

namespace RetryPolicy

variable {σ Job Result : Type} {behaviour : Job → Script σ Job Result} {acts : List (Act σ)}
  {stopped : σ → Bool} {call : StoreCall} {result : Except WorkerError call.Answer}

/-- The result of repeated calls agrees with the answer to the last of them. -/
def Agrees (call : StoreCall) : call.Reply → Except WorkerError call.Answer → Prop
  | .ok answer, result => result = .ok answer
  | .error _, result => ∃ error, result = .error error

/-- Some calls fail in a way that may pass, and the last one decides. Nothing but these calls and the
choice of pauses shows. -/
structure Decides (call : StoreCall) (acts : List (Act σ)) (failures : List StoreError)
    (reply : call.Reply) (result : Except WorkerError call.Answer) : Prop where
  calls : calledIn acts =
    (failures.map fun error => ⟨call, call.failed error⟩) ++ [⟨call, reply⟩]
  transient : ∀ error ∈ failures, error.isRetryable = true
  agrees : Agrees call reply result
  only : ∀ act ∈ acts, act.Attempts call

theorem enacts_attempts (policy : RetryPolicy) {left earlier : Nat}
    (enacts : (policy.attempts stopped ((Script.call call).bind fun reply =>
      .done (reply.mapError WorkerError.store)) left earlier).Enacts behaviour acts result) :
    ∃ failures reply, failures.length ≤ left ∧ Decides call acts failures reply result := by
  have single (reply : call.Reply) (agrees : Agrees call reply result) :
      Decides call [(.asked (.store call) reply : Act σ)] [] reply result :=
    ⟨rfl, by simp, agrees, by simp [Act.Attempts]⟩
  induction left generalizing acts earlier with
  | zero =>
    obtain ⟨reply, rest, ended, rfl⟩ := Script.Enacts.of_query enacts
    obtain ⟨rfl, rfl⟩ := Script.Enacts.of_done ended
    refine ⟨[], reply, Nat.le_refl _, single reply ?_⟩
    cases reply with
    | ok answer => rfl
    | error error => exact ⟨_, rfl⟩
  | succ left ih =>
    obtain ⟨reply, rest, afterCall, rfl⟩ := Script.Enacts.of_query enacts
    cases reply with
    | ok answer =>
      obtain ⟨rfl, rfl⟩ := Script.Enacts.of_done afterCall
      exact ⟨[], _, Nat.zero_le _, single (.ok answer) rfl⟩
    | error error =>
      dsimp only [Except.mapError] at afterCall
      split at afterCall
      case isFalse =>
        obtain ⟨rfl, rfl⟩ := Script.Enacts.of_done afterCall
        exact ⟨[], _, Nat.zero_le _, single (.error error) ⟨_, rfl⟩⟩
      case isTrue passing =>
        obtain ⟨pause, later, afterDraw, rfl⟩ := Script.Enacts.of_query afterCall
        obtain ⟨complete, afterPause⟩ := Script.Enacts.of_sleep afterDraw
        cases complete with
        | false =>
          obtain ⟨rfl, rfl⟩ := Script.Enacts.of_done afterPause
          refine ⟨[], .error error, Nat.zero_le _, rfl, by simp, ⟨_, rfl⟩, ?_⟩
          simp [Act.Attempts]
        | true =>
          obtain ⟨failures, reply, atMost, calls, transient, agrees, only⟩ := ih afterPause
          refine ⟨error :: failures, reply, Nat.succ_le_succ atMost, ?calls,
            List.forall_mem_cons.2 ⟨passing, transient⟩, agrees, ?only⟩
          case calls =>
            rw [calledIn_store, List.map_cons, List.cons_append, ← calls]
            rfl
          case only => simpa [Act.Attempts] using only

/-- A store call is repeated, at most as often as the policy says, until it does not fail or fails for
good. -/
theorem enacts_store (policy : RetryPolicy)
    (enacts : (policy.store stopped call).Enacts behaviour acts result) :
    ∃ failures reply, failures.length ≤ policy.maxAttempts - 1 ∧
      Decides call acts failures reply result :=
  policy.enacts_attempts enacts

end RetryPolicy

/-! ## Scenes -/

theorem LeaseTable.Answers.keyed {found left : LeaseTable} {call : StoreCall} {reply : call.Reply}
    (answers : found.Answers call reply left) (keyed : found.Keyed) : left.Keyed := by
  obtain performed | ⟨_, _, rfl⟩ := answers
  · have same : (found.performIn .unlimited call).2 = left := congrArg Prod.snd performed
    exact same ▸ keyed.performIn .unlimited call
  · exact keyed

/-- An update is applied to a lease that is stored under the expected counter, or nothing changes. -/
theorem LeaseTable.Answers.of_update {found left : LeaseTable} {lease : Lease} {expected : Nat}
    {reply : StoreCall.Reply (.update lease expected)}
    (answers : found.Answers (.update lease expected) reply left) :
    (∀ stored, reply ≠ .ok (.updated stored)) ∧ left = found ∨
      (∃ current, found.get? lease.leaseKey = some current ∧ current.counter = expected) ∧
        reply = .ok (.updated { lease with counter := expected + 1 }) ∧
          left = found.put { lease with counter := expected + 1 } := by
  obtain ⟨rfl, rfl⟩ | ⟨error, rfl, rfl⟩ := answers.imp_left Prod.mk.inj
  · by_cases applied : ∃ stored, (found.update lease expected).1 = .updated stored
    · obtain ⟨stored, updated⟩ := applied
      obtain ⟨current, rfl⟩ := update_updated.1 updated
      exact .inr ⟨current, congrArg Except.ok updated, update_table updated⟩
    · have refused := not_exists.1 applied
      exact .inl ⟨fun stored same => refused stored (Except.ok.inj same), update_refused refused⟩
  · exact .inl ⟨fun stored same => (by cases same), rfl⟩

/-- An update that was applied has stored the lease under the next counter. -/
theorem LeaseTable.Answers.stored {found left : LeaseTable} {lease stored : Lease} {expected : Nat}
    (answers : found.Answers (.update lease expected) (.ok (.updated stored)) left) :
    stored = { lease with counter := expected + 1 } ∧ left = found.put stored := by
  obtain ⟨notUpdated, _⟩ | ⟨_, same, rfl⟩ := answers.of_update
  · exact absurd rfl (notUpdated stored)
  · obtain rfl := UpdateOutcome.updated.inj (Except.ok.inj same)
    exact ⟨rfl, rfl⟩

/-- Where acts take place. -/
structure Scene (σ : Type) where
  state : σ
  table : LeaseTable
  /-- What the clock says. -/
  time : Nat
  /-- How many tokens have been given. -/
  tokens : Nat

namespace Scene

variable {σ : Type}

/-- What an act makes of a scene. -/
inductive Does : Scene σ → Act σ → Scene σ → Prop
  | call {found : Scene σ} {call : StoreCall} {reply : call.Reply} {table : LeaseTable}
      (answers : found.table.Answers call reply table) :
      Does found (.asked (.store call) reply) { found with table }
  | clock (found : Scene σ) : Does found (.asked .clock found.time) found
  | token (found : Scene σ) :
      Does found (.asked .token ⟨found.tokens⟩) { found with tokens := found.tokens + 1 }
  | other {query : Query} (found : Scene σ) (reply : query.Reply)
      (notCall : ∀ call, query ≠ .store call) (notClock : query ≠ .clock) (notToken : query ≠ .token) :
      Does found (.asked query reply) found
  | change (found : Scene σ) (state : σ) : Does found (.changed found.state state) { found with state }

theorem Does.of_call {found left : Scene σ} {call : StoreCall} {reply : call.Reply}
    (does : found.Does (.asked (.store call) reply) left) :
    found.table.Answers call reply left.table ∧ left = { found with table := left.table } := by
  cases does with
  | call answers => exact ⟨answers, rfl⟩
  | other _ _ notCall => exact absurd rfl (notCall call)

/-- Whatever is done, leases stay stored under their own keys. -/
theorem Does.keyed {found left : Scene σ} {act : Act σ} (does : found.Does act left)
    (keyed : found.table.Keyed) : left.table.Keyed := by
  cases does with
  | call answers => exact answers.keyed keyed
  | clock | token | other | change => exact keyed

theorem Does.of_token {found left : Scene σ} {token : Token}
    (does : found.Does (.asked .token token) left) :
    token = ⟨found.tokens⟩ ∧ left = { found with tokens := found.tokens + 1 } := by
  cases does with
  | token => exact ⟨rfl, rfl⟩
  | other _ _ _ _ notToken => exact absurd rfl notToken

end Scene

/-- An act with the scenes before and after it. -/
structure Beat (σ : Type) where
  found : Scene σ
  act : Act σ
  left : Scene σ

namespace Scene

variable {σ : Type} {between : Scene σ → Scene σ → Prop}

/-- Acts that take place one after another, with what others do in between. -/
inductive Through (between : Scene σ → Scene σ → Prop) : Scene σ → List (Beat σ) → Scene σ → Prop
  | nil {first last : Scene σ} (others : between first last) : Through between first [] last
  | cons {first last : Scene σ} {beat : Beat σ} {later : List (Beat σ)}
      (others : between first beat.found) (does : beat.found.Does beat.act beat.left)
      (rest : Through between beat.left later last) : Through between first (beat :: later) last

theorem Through.does {first last : Scene σ} {beats : List (Beat σ)}
    (through : Through between first beats last) :
    ∀ beat ∈ beats, beat.found.Does beat.act beat.left := by
  induction through with
  | nil => simp
  | cons _ does _ ih => exact List.forall_mem_cons.2 ⟨does, ih⟩

theorem Through.append
    (trans : ∀ first middle last, between first middle → between middle last → between first last)
    {first middle last : Scene σ} {before after : List (Beat σ)}
    (earlier : Through between first before middle) (later : Through between middle after last) :
    Through between first (before ++ after) last := by
  induction earlier with
  | nil others =>
    cases later with
    | nil more => exact .nil (trans _ _ _ others more)
    | cons more does rest => exact .cons (trans _ _ _ others more) does rest
  | cons others does _ ih => exact .cons others does (ih later)

/-- In between, others may do nothing. -/
theorem Through.of_append (refl : ∀ scene, between scene scene) {first last : Scene σ}
    {before after : List (Beat σ)} (through : Through between first (before ++ after) last) :
    ∃ middle, Through between first before middle ∧ Through between middle after last := by
  induction before generalizing first with
  | nil => exact ⟨first, .nil (refl first), through⟩
  | cons beat before ih =>
    cases through with
    | cons others does rest =>
      obtain ⟨middle, earlier, later⟩ := ih rest
      exact ⟨middle, .cons others does earlier, later⟩

end Scene

/-! ## From scene to scene -/

namespace Script

variable {σ Job Result α β : Type}

/-- A script is enacted from one scene to another one. -/
structure Leads (behaviour : Job → Script σ Job Result) (between : Scene σ → Scene σ → Prop)
    (script : Script σ Job α) (first : Scene σ) (beats : List (Beat σ)) (last : Scene σ) (value : α) :
    Prop where
  enacts : script.Enacts behaviour (beats.map Beat.act) value
  through : first.Through between beats last

variable {behaviour : Job → Script σ Job Result} {between : Scene σ → Scene σ → Prop}
  {first last : Scene σ} {beats : List (Beat σ)}

theorem Leads.of_done {value wanted : α}
    (leads : (Script.done value).Leads behaviour between first beats last wanted) :
    beats = [] ∧ wanted = value ∧ between first last := by
  obtain ⟨none, rfl⟩ := leads.enacts.of_done
  obtain rfl := List.map_eq_nil_iff.1 none
  cases leads.through with
  | nil others => exact ⟨rfl, rfl, others⟩

theorem Leads.of_bind (refl : ∀ scene, between scene scene) {script : Script σ Job α}
    {following : α → Script σ Job β} {value : β}
    (leads : (script.bind following).Leads behaviour between first beats last value) :
    ∃ before middle result after, script.Leads behaviour between first before middle result ∧
      (following result).Leads behaviour between middle after last value ∧ beats = before ++ after := by
  obtain ⟨acts, actsAfter, result, earlier, later, split⟩ := leads.enacts.of_bind
  obtain ⟨before, after, rfl, rfl, rfl⟩ := List.map_eq_append_iff.1 split
  obtain ⟨middle, throughBefore, throughAfter⟩ := leads.through.of_append refl
  exact ⟨before, middle, result, after, ⟨earlier, throughBefore⟩, ⟨later, throughAfter⟩, rfl⟩

theorem Leads.of_query {question : Query} {next : question.Reply → Script σ Job α} {value : α}
    (leads : ((Script.query question).bind next).Leads behaviour between first beats last value) :
    ∃ beat reply later, between first beat.found ∧ beat.act = .asked question reply ∧
      beat.found.Does (.asked question reply) beat.left ∧
        (next reply).Leads behaviour between beat.left later last value ∧
          beats = beat :: later := by
  obtain ⟨reply, rest, enacts, split⟩ := leads.enacts.of_query
  obtain ⟨beat, later, rfl, same, rfl⟩ := List.map_eq_cons_iff.1 split
  cases leads.through with
  | cons others does through =>
    exact ⟨beat, reply, later, others, same, same ▸ does, ⟨enacts, through⟩, rfl⟩

theorem Leads.of_step {ready : σ → Bool} {change : σ → σ} {next : σ → Script σ Job α} {value : α}
    (leads : ((Script.step ready change .done).bind next).Leads behaviour between first beats last
      value) :
    ∃ beat later, between first beat.found ∧
      beat.act = .changed beat.found.state (change beat.found.state) ∧
        beat.left = { beat.found with state := change beat.found.state } ∧
          (next beat.found.state).Leads behaviour between beat.left later last value ∧
            beats = beat :: later := by
  obtain ⟨state, rest, enacts, split⟩ := leads.enacts.of_step
  obtain ⟨⟨found, act, left⟩, later, rfl, same, rfl⟩ := List.map_eq_cons_iff.1 split
  dsimp only at same
  subst same
  cases leads.through with
  | cons others does through =>
    dsimp only at others does through
    cases does with
    | change => exact ⟨_, later, others, rfl, rfl, ⟨enacts, through⟩, rfl⟩

end Script

/-! ## Alone with the store -/

/-- What is answered to a question if the store does not fail, and the scene after it. -/
def Scene.answer {σ : Type} (scene : Scene σ) : (query : Query) → query.Reply × Scene σ
  | .store call => ((scene.table.perform call).1, { scene with table := (scene.table.perform call).2 })
  | .clock => (scene.time, scene)
  | .token => (⟨scene.tokens⟩, { scene with tokens := scene.tokens + 1 })
  | query => (Interleaving.plainReply query, scene)

theorem Scene.does_answer {σ : Type} (scene : Scene σ) (query : Query) :
    scene.Does (.asked query (scene.answer query).1) (scene.answer query).2 := by
  cases query with
  | store call => exact .call (.inl (LeaseTable.performIn_unlimited ..))
  | clock => exact .clock scene
  | token => exact .token scene
  | _ => exact .other scene _ (by simp) (by simp) (by simp)

namespace Scene

variable {σ Job Result : Type}

/-- What jobs lead to, one after another: the parts, the scene after them and the results. -/
def inTurn (enact : Job → Scene σ → Option (List (Beat σ) × Scene σ × Result)) :
    List Job → Scene σ → Option (List (List (Beat σ)) × Scene σ × List Result)
  | [], scene => some ([], scene, [])
  | job :: rest, scene =>
    (enact job scene).bind fun done =>
      (inTurn enact rest done.2.1).map fun later =>
        (done.1 :: later.1, later.2.1, done.2.2 :: later.2.2)

theorem leads_of_inTurn (behaviour : Job → Script σ Job Result) {between : Scene σ → Scene σ → Prop}
    (refl : ∀ scene, between scene scene)
    (trans : ∀ first middle last, between first middle → between middle last → between first last)
    {enact : Job → Scene σ → Option (List (Beat σ) × Scene σ × Result)}
    (enacts : ∀ {job first beats last result}, enact job first = some (beats, last, result) →
      (behaviour job).Leads behaviour between first beats last result)
    {jobs : List Job} {first last : Scene σ} {parts : List (List (Beat σ))} {results : List Result}
    (inTurn : Scene.inTurn enact jobs first = some (parts, last, results)) :
    parts.length = jobs.length ∧ results.length = jobs.length ∧
      (∀ (i : Nat) job part result, jobs[i]? = some job → parts[i]? = some part →
        results[i]? = some result → (behaviour job).Enacts behaviour (part.map Beat.act) result) ∧
      first.Through between parts.flatten last := by
  induction jobs generalizing first parts results with
  | nil =>
    cases inTurn
    exact ⟨rfl, rfl, by simp, .nil (refl _)⟩
  | cons job rest ih =>
    obtain ⟨⟨beats, middle, result⟩, here, others⟩ := Option.bind_eq_some_iff.1 inTurn
    obtain ⟨⟨parts, _, results⟩, later, same⟩ := Option.map_eq_some_iff.1 others
    cases same
    have leads := enacts here
    obtain ⟨parts_length, results_length, each, through⟩ := ih later
    refine ⟨congrArg Nat.succ parts_length, congrArg Nat.succ results_length, ?_,
      leads.through.append trans through⟩
    intro i other part found isJob isPart isResult
    cases i with
    | zero =>
      cases isJob
      cases isPart
      cases isResult
      exact leads.enacts
    | succ i => exact each i other part found isJob isPart isResult

end Scene

namespace Script

variable {σ Job Result α : Type}

/-- What a script leads to that starts no jobs but those it waits for, if nobody else does anything. These
jobs are enacted in turn, as another function says. -/
def alone (enact : Job → Scene σ → Option (List (Beat σ) × Scene σ × Result)) :
    Script σ Job α → Scene σ → Option (List (Beat σ) × Scene σ × α)
  | done value, scene => some ([], scene, value)
  | ask query next, scene =>
    let answered := scene.answer query
    ((next answered.1).alone enact answered.2).map fun rest =>
      (⟨scene, .asked query answered.1, answered.2⟩ :: rest.1, rest.2)
  | step ready change next, scene =>
    if ready scene.state then
      let left := { scene with state := change scene.state }
      ((next scene.state).alone enact left).map fun rest =>
        (⟨scene, .changed scene.state (change scene.state), left⟩ :: rest.1, rest.2)
    else none
  | sleep _ _ next, scene => (next true).alone enact scene
  | spawn _ _, _ => none
  | gather jobs next, scene =>
    (Scene.inTurn enact jobs scene).bind fun together =>
      (next.alone enact together.2.1).map fun rest => (together.1.flatten ++ rest.1, rest.2)

theorem leads_of_alone (behaviour : Job → Script σ Job Result) {between : Scene σ → Scene σ → Prop}
    (refl : ∀ scene, between scene scene)
    (trans : ∀ first middle last, between first middle → between middle last → between first last)
    {enact : Job → Scene σ → Option (List (Beat σ) × Scene σ × Result)}
    (enacts : ∀ {job first beats last result}, enact job first = some (beats, last, result) →
      (behaviour job).Leads behaviour between first beats last result)
    {script : Script σ Job α} {first last : Scene σ} {beats : List (Beat σ)} {value : α}
    (alone : script.alone enact first = some (beats, last, value)) :
    script.Leads behaviour between first beats last value := by
  induction script generalizing first beats with
  | done result =>
    cases alone
    exact ⟨.done value, .nil (refl last)⟩
  | ask query next ih =>
    obtain ⟨⟨later, _⟩, rest, same⟩ := Option.map_eq_some_iff.1 alone
    cases same
    have leads := ih _ rest
    exact ⟨.ask _ leads.enacts, .cons (refl first) (first.does_answer query) leads.through⟩
  | step ready change next ih =>
    unfold Script.alone at alone
    split at alone
    case isTrue permitted =>
      obtain ⟨⟨later, _⟩, rest, same⟩ := Option.map_eq_some_iff.1 alone
      cases same
      have leads := ih _ rest
      exact ⟨.step _ permitted leads.enacts, .cons (refl first) (.change first _) leads.through⟩
    case isFalse => cases alone
  | sleep millis stopped next ih =>
    have leads := ih true alone
    exact ⟨.sleep true leads.enacts, leads.through⟩
  | spawn => cases alone
  | gather jobs next ih =>
    obtain ⟨⟨parts, middle, results⟩, together, following⟩ := Option.bind_eq_some_iff.1 alone
    obtain ⟨⟨later, _⟩, rest, same⟩ := Option.map_eq_some_iff.1 following
    cases same
    obtain ⟨parts_length, results_length, each, through⟩ :=
      Scene.leads_of_inTurn behaviour refl trans enacts together
    have leads := ih rest
    refine ⟨?_, through.append trans leads.through⟩
    rw [List.map_append, List.map_flatten]
    refine .gather (by simpa using parts_length) results_length ?_ (.flatten _) leads.enacts
    intro i job part result isJob isPart isResult
    rw [List.getElem?_map] at isPart
    obtain ⟨beats, known, rfl⟩ := Option.map_eq_some_iff.1 isPart
    exact each i job beats result isJob known isResult

end Script

/-! ## A part of the state -/

/-- The acts lead a part of the state from one value to another one, if only they change it. -/
def Carries {σ β : Type} (part : σ → β) : β → List (Act σ) → β → Prop
  | value, [], final => final = value
  | value, .asked _ _ :: later, final => Carries part value later final
  | value, .changed found now :: later, final => part found = value ∧ Carries part (part now) later final

/-- The act leaves a part of the state as it was. -/
def Act.Keeps {σ β : Type} (part : σ → β) : Act σ → Prop
  | asked _ _ => True
  | changed found now => part now = part found

section

variable {σ β : Type} {part : σ → β} {value final : β}

theorem Scene.Through.carries {between : Scene σ → Scene σ → Prop}
    (keeps : ∀ {found left}, between found left → part left.state = part found.state)
    {first last : Scene σ} {beats : List (Beat σ)} (through : first.Through between beats last) :
    Carries part (part first.state) (beats.map Beat.act) (part last.state) := by
  induction through with
  | nil others => exact keeps others
  | @cons first last beat later others does _ ih =>
    obtain ⟨found, act, left⟩ := beat
    dsimp only at others does ih
    rw [List.map_cons, ← keeps others]
    cases does with
    | change => exact ⟨rfl, ih⟩
    | call | clock | token | other => exact ih

/-- An act that keeps the part may be left out. -/
theorem Carries.of_keeps {act : Act σ} {later : List (Act σ)} (keeps : act.Keeps part)
    (carries : Carries part value (act :: later) final) : Carries part value later final := by
  cases act with
  | asked => exact carries
  | changed found now =>
    obtain ⟨same, rest⟩ := carries
    have unchanged : part now = part found := keeps
    rwa [unchanged, same] at rest

theorem Carries.eq_of_keeps {acts : List (Act σ)} (keeps : ∀ act ∈ acts, act.Keeps part)
    (carries : Carries part value acts final) : final = value := by
  induction acts with
  | nil => exact carries
  | cons act acts ih =>
    obtain ⟨here, later⟩ := List.forall_mem_cons.1 keeps
    exact ih later (carries.of_keeps here)

/-- Acts after a first one are carried on from some value. -/
theorem Carries.cons {act : Act σ} {later : List (Act σ)}
    (carries : Carries part value (act :: later) final) :
    ∃ middle, Carries part middle later final ∧
      ∀ others final, Carries part middle others final → Carries part value (act :: others) final := by
  cases act with
  | asked => exact ⟨value, carries, fun _ _ rest => rest⟩
  | changed found now => exact ⟨part now, carries.2, fun _ _ rest => ⟨carries.1, rest⟩⟩

theorem Carries.of_append {acts later : List (Act σ)} (carries : Carries part value (acts ++ later) final) :
    ∃ middle, Carries part value acts middle ∧ Carries part middle later final := by
  induction acts generalizing value with
  | nil => exact ⟨value, rfl, carries⟩
  | cons act acts ih =>
    obtain ⟨next, rest, extend⟩ := carries.cons
    obtain ⟨middle, earlier, after⟩ := ih rest
    exact ⟨middle, extend _ _ earlier, after⟩

/-- A part that all lists keep but one is led by that one. -/
theorem Interleaves.carries {lists : List (List (Act σ))} {all : List (Act σ)}
    (side : Interleaves lists all) {i : Nat} {list : List (Act σ)} (here : lists[i]? = some list)
    (others : ∀ j other, j ≠ i → lists[j]? = some other → ∀ act ∈ other, act.Keeps part)
    (carries : Carries part value all final) : Carries part value list final := by
  induction side generalizing list value with
  | nil ended =>
    obtain rfl := ended list (List.mem_of_getElem? here)
    exact carries
  | @cons lists j head rest all next _ ih =>
    have tail (keep : ∀ act ∈ head :: rest, act.Keeps part) : ∀ act ∈ rest, act.Keeps part :=
      (List.forall_mem_cons.1 keep).2
    have later := others_set next tail others
    by_cases same : j = i
    · subst same
      obtain rfl := Option.some.inj (here.symm.trans next)
      obtain ⟨known, _⟩ := List.getElem?_eq_some_iff.1 next
      obtain ⟨middle, carriesRest, extend⟩ := carries.cons
      exact extend _ _ (ih (List.getElem?_set_self known) later carriesRest)
    · have keeps := others j _ same next head List.mem_cons_self
      exact ih (by rwa [List.getElem?_set_ne same]) later (carries.of_keeps keeps)

end

/-! ## A coordinator among others -/

/-- What a coordinator holds and has observed, who it is and how it is set are the same. -/
structure Coordinator.SameBasis (before now : Coordinator) : Prop where
  held : now.held = before.held
  observed : now.observed = before.observed
  workerId : now.workerId = before.workerId
  settings : now.settings = before.settings

theorem Coordinator.SameBasis.refl (state : Coordinator) : state.SameBasis state := ⟨rfl, rfl, rfl, rfl⟩

theorem Coordinator.SameBasis.trans {before between now : Coordinator} (first : before.SameBasis between)
    (second : between.SameBasis now) : before.SameBasis now :=
  ⟨second.held.trans first.held, second.observed.trans first.observed,
    second.workerId.trans first.workerId, second.settings.trans first.settings⟩

/-- What others may do to the scene of a coordinator: they call the store, time passes, tokens are given,
and the coordinator goes on with whatever does not concern what it holds. Only what acquires leases takes in
the table, so what was observed stays the same, too. -/
structure Scene.Passes (found left : Scene Coordinator) : Prop where
  basis : found.state.SameBasis left.state
  time : found.time ≤ left.time
  tokens : found.tokens ≤ left.tokens
  keyed : found.table.Keyed → left.table.Keyed

/-- An act that changes nothing of what a coordinator takes or renews leases by. -/
def Act.KeepsBasis : Act Coordinator → Prop
  | asked _ _ => True
  | changed found now => found.SameBasis now

theorem Act.Attempts.keepsBasis {call : StoreCall} {act : Act Coordinator} (attempts : act.Attempts call) :
    act.KeepsBasis :=
  attempts.elim (fun _ => trivial) fun _ _ _ => trivial

namespace Scene

theorem Passes.refl (scene : Scene Coordinator) : scene.Passes scene :=
  ⟨.refl _, Nat.le_refl _, Nat.le_refl _, id⟩

theorem Passes.trans {first between last : Scene Coordinator} (earlier : first.Passes between)
    (later : between.Passes last) : first.Passes last :=
  ⟨earlier.basis.trans later.basis, Nat.le_trans earlier.time later.time,
    Nat.le_trans earlier.tokens later.tokens, later.keyed ∘ earlier.keyed⟩

theorem Does.passes {found left : Scene Coordinator} {act : Act Coordinator} (does : found.Does act left)
    (keeps : act.KeepsBasis) : found.Passes left := by
  refine ⟨?basis, ?time, ?tokens, does.keyed⟩
  case basis =>
    cases does with
    | change => exact keeps
    | call | clock | token | other => exact .refl _
  case time => cases does <;> exact Nat.le_refl _
  case tokens =>
    cases does with
    | token => exact Nat.le_succ _
    | call | clock | change | other => exact Nat.le_refl _

theorem Through.passes {first last : Scene Coordinator} {beats : List (Beat Coordinator)}
    (through : Through Passes first beats last) (keeps : ∀ beat ∈ beats, beat.act.KeepsBasis) :
    first.Passes last := by
  induction through with
  | nil others => exact others
  | cons others does _ ih =>
    obtain ⟨here, later⟩ := List.forall_mem_cons.1 keeps
    exact others.trans ((does.passes here).trans (ih later))

theorem Through.keyed {first last : Scene Coordinator} {beats : List (Beat Coordinator)}
    (through : Through Passes first beats last) (keyed : first.table.Keyed) :
    ∀ beat ∈ beats, beat.found.table.Keyed := by
  induction through with
  | nil => simp
  | cons others does _ ih =>
    have found := others.keyed keyed
    exact List.forall_mem_cons.2 ⟨found, ih (does.keyed found)⟩

end Scene

/-- A script of a coordinator is enacted from one scene to another one. -/
abbrev Coordinator.Leads {α : Type} (script : CoordinatorScript α) :
    Scene Coordinator → List (Beat Coordinator) → Scene Coordinator → α → Prop :=
  Script.Leads Coordinator.perform Scene.Passes script

/-- What a script of a coordinator leads to that waits at most for jobs that do not wait for others, if
nobody else does anything. -/
def Coordinator.alone {α : Type} (script : CoordinatorScript α) :
    Scene Coordinator → Option (List (Beat Coordinator) × Scene Coordinator × α) :=
  script.alone fun job => (Coordinator.perform job).alone fun _ _ =>
    (none : Option (_ × _ × Option CoordinatorJob))

theorem Coordinator.leads_of_alone {α : Type} {script : CoordinatorScript α}
    {first last : Scene Coordinator} {beats : List (Beat Coordinator)} {value : α}
    (alone : Coordinator.alone script first = some (beats, last, value)) :
    Leads script first beats last value :=
  have trans (first middle last : Scene Coordinator) (earlier : first.Passes middle)
      (later : middle.Passes last) : first.Passes last := earlier.trans later
  Script.leads_of_alone perform Scene.Passes.refl trans
    (Script.leads_of_alone perform Scene.Passes.refl trans fun none => by cases none) alone

/-- A coordinator looks up how often it repeats a store call. -/
theorem Coordinator.enacts_store {call : StoreCall} {acts : List (Act Coordinator)}
    {result : Except WorkerError call.Answer}
    (enacts : (Coordinator.store call).Enacts Coordinator.perform acts result) :
    ∃ state rest failures reply, acts = .changed state state :: rest ∧
      failures.length ≤ state.retry.maxAttempts - 1 ∧
        RetryPolicy.Decides call rest failures reply result := by
  obtain ⟨state, rest, repeated, rfl⟩ := Script.Enacts.of_step enacts
  obtain ⟨failures, reply, atMost, decides⟩ := state.retry.enacts_store repeated
  exact ⟨state, rest, failures, reply, rfl, atMost, decides⟩

namespace Coordinator

variable {α : Type} {first last : Scene Coordinator} {beats : List (Beat Coordinator)} {value : α}

/-- A look finds the basis as it was. -/
theorem leads_look {next : Coordinator → CoordinatorScript α}
    (leads : Leads (Script.look.bind next) first beats last value) :
    ∃ state beat later, first.state.SameBasis state ∧ first.Passes beat.left ∧
      beat.act = .changed state state ∧ Leads (next state) beat.left later last value ∧
        beats = beat :: later := by
  obtain ⟨beat, later, others, isLook, left, rest, rfl⟩ := Script.Leads.of_step leads
  have unchanged : beat.left = beat.found := left
  exact ⟨_, beat, later, others.basis, unchanged ▸ others, isLook, rest, rfl⟩

/-- A question changes nothing of the basis. -/
theorem leads_query {question : Query} {next : question.Reply → CoordinatorScript α}
    (leads : Leads ((Script.query question).bind next) first beats last value) :
    ∃ beat reply later, first.Passes beat.found ∧ first.Passes beat.left ∧
      beat.act = .asked question reply ∧ beat.found.Does (.asked question reply) beat.left ∧
        Leads (next reply) beat.left later last value ∧ beats = beat :: later := by
  obtain ⟨beat, reply, later, others, isAsked, does, rest, rfl⟩ := Script.Leads.of_query leads
  exact ⟨beat, reply, later, others, others.trans (does.passes trivial), isAsked, does, rest, rfl⟩

end Coordinator

end LeaseFleet
