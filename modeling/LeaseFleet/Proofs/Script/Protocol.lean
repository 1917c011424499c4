import LeaseFleet.Proofs.Interleaving.Basic
import LeaseFleet.Script.Retry

/-!
# Protocols

What a thread is up to is said by a mark. A protocol says how the mark may change with each kind of
action, what a thread relies on when it is answered or looks at the state of its place, and thereby
which actions are open to it at all. A script follows a protocol from a mark when each of its
actions is open at its turn, whatever comes back (`Follows`).

In an interleaving whose jobs all follow their protocols, every step is a move of the protocols
(`Step.move`). So an invariant has to be checked once for every kind of move and not for every
script.
-/

namespace LeaseFleet

/-- The rules for the threads of one place and job. -/
structure Protocol (σ Job Mark : Type) where
  /-- What a thread relies on when a question is answered. -/
  hears : (query : Query) → query.Reply → Prop
  /-- What a thread relies on when it comes to the state of its place. -/
  sees : σ → Prop
  /-- The questions that are open, with the marks after their answers. -/
  asks : Mark → (query : Query) → query.Reply → Mark → Prop
  /-- The changes of state that are open, with the marks after them. -/
  steps : Mark → σ → σ → Mark → Prop
  /-- The jobs that may be started, with the marks of the new thread and of the old one. -/
  starts : Mark → Job → Mark → Mark → Prop

namespace Protocol

variable {σ τ Job Other Mark : Type}

/-- Jobs may be started one after another, with the marks of their threads. -/
inductive StartsAll (rules : Protocol σ Job Mark) : Mark → List Job → List Mark → Mark → Prop
  | nil (mark : Mark) : StartsAll rules mark [] [] mark
  | cons {mark child between after : Mark} {job : Job} {jobs : List Job} {children : List Mark}
      (first : rules.starts mark job child between)
      (others : StartsAll rules between jobs children after) :
      StartsAll rules mark (job :: jobs) (child :: children) after

/-- The rules for a larger state and for more jobs, of which only those count that stand for jobs
of the smaller part. -/
def along (rules : Protocol τ Other Mark) (part : σ → τ) (inner? : Job → Option Other) :
    Protocol σ Job Mark where
  hears := rules.hears
  sees whole := rules.sees (part whole)
  asks := rules.asks
  steps mark before now after := rules.steps mark (part before) (part now) after
  starts mark job child after :=
    match inner? job with
    | some other => rules.starts mark other child after
    | none => child = mark ∧ after = mark

/-- The rules for a larger state, where only jobs of the smaller part may be started. -/
def within (rules : Protocol τ Other Mark) (part : σ → τ) (rename : Other → Job) :
    Protocol σ Job Mark where
  hears := rules.hears
  sees whole := rules.sees (part whole)
  asks := rules.asks
  steps mark before now after := rules.steps mark (part before) (part now) after
  starts mark job child after := ∃ inner, job = rename inner ∧ rules.starts mark inner child after

end Protocol

namespace Script

variable {σ τ Job Other Mark α β : Type} {rules : Protocol σ Job Mark}

/-- From a mark, every action of the script is open at its turn, and the mark and the value at the
end are as wanted. -/
def Follows (rules : Protocol σ Job Mark) (wanted : Mark → α → Prop) :
    Script σ Job α → Mark → Prop
  | done value, mark => wanted mark value
  | ask query next, mark => ∀ reply, rules.hears query reply →
      ∃ after, rules.asks mark query reply after ∧ (next reply).Follows rules wanted after
  | step ready change next, mark => ∀ state, rules.sees state → ready state = true →
      ∃ after, rules.steps mark state (change state) after ∧ (next state).Follows rules wanted after
  | sleep _ _ next, mark => ∀ complete, (next complete).Follows rules wanted mark
  | spawn job next, mark =>
      ∃ child after, rules.starts mark job child after ∧ next.Follows rules wanted after
  | gather jobs next, mark =>
      ∃ children after, rules.StartsAll mark jobs children after ∧ next.Follows rules wanted after

@[simp] theorem pure_eq_done (value : α) : (pure value : Script σ Job α) = done value := rfl

@[simp] theorem bind_eq_bind (script : Script σ Job α) (following : α → Script σ Job β) :
    script >>= following = script.bind following := rfl

@[simp] theorem follows_done (wanted : Mark → α → Prop) (value : α) (mark : Mark) :
    (done value : Script σ Job α).Follows rules wanted mark ↔ wanted mark value := Iff.rfl

/-- One script after another: the second begins where the first ends. -/
@[simp] theorem follows_bind (wanted : Mark → β → Prop) (script : Script σ Job α)
    (following : α → Script σ Job β) (mark : Mark) :
    (script.bind following).Follows rules wanted mark ↔
      script.Follows rules (fun mark value => (following value).Follows rules wanted mark) mark := by
  induction script generalizing mark with
  | done value => rfl
  | ask query next ih => simp only [Follows, bind, ih]
  | step ready change next ih => simp only [Follows, bind, ih]
  | sleep millis stopped next ih => simp only [Follows, bind, ih]
  | spawn job next ih => simp only [Follows, bind, ih]
  | gather jobs next ih => simp only [Follows, bind, ih]

theorem Follows.imp {wanted weaker : Mark → α → Prop} {script : Script σ Job α} {mark : Mark}
    (follows : script.Follows rules wanted mark)
    (weaken : ∀ mark value, wanted mark value → weaker mark value) :
    script.Follows rules weaker mark := by
  induction script generalizing mark with
  | done value => exact weaken mark value follows
  | ask query next ih =>
    intro reply heard
    obtain ⟨after, open_, rest⟩ := follows reply heard
    exact ⟨after, open_, ih reply rest⟩
  | step ready change next ih =>
    intro state seen permitted
    obtain ⟨after, open_, rest⟩ := follows state seen permitted
    exact ⟨after, open_, ih state rest⟩
  | sleep millis stopped next ih => exact fun complete => ih complete (follows complete)
  | spawn job next ih =>
    obtain ⟨child, after, open_, rest⟩ := follows
    exact ⟨child, after, open_, ih rest⟩
  | gather jobs next ih =>
    obtain ⟨children, after, open_, rest⟩ := follows
    exact ⟨children, after, open_, ih rest⟩

@[simp] theorem follows_query (question : Query) (wanted : Mark → question.Reply → Prop)
    (mark : Mark) :
    (Script.query question : Script σ Job question.Reply).Follows rules wanted mark ↔
      ∀ reply, rules.hears question reply →
        ∃ after, rules.asks mark question reply after ∧ wanted after reply := Iff.rfl

/-- From a mark the script follows the rules and comes back to the mark. -/
def Returns (rules : Protocol σ Job Mark) (mark : Mark) (script : Script σ Job α) : Prop :=
  script.Follows rules (fun after _ => after = mark) mark

/-- After a script that comes back, the next one begins from the same mark. -/
theorem Returns.bind {wanted : Mark → β → Prop} {script : Script σ Job α} {mark : Mark}
    {following : α → Script σ Job β} (first : script.Returns rules mark)
    (rest : ∀ value, (following value).Follows rules wanted mark) :
    (script.bind following).Follows rules wanted mark := by
  refine (follows_bind ..).2 (Follows.imp first fun after value back => ?_)
  subst back
  exact rest value

/-- The script follows the rules from every mark. -/
def Safe (rules : Protocol σ Job Mark) (script : Script σ Job α) : Prop :=
  ∀ mark, script.Follows rules (fun _ _ => True) mark

theorem safe_done (value : α) : (done value : Script σ Job α).Safe rules := fun _ => trivial

theorem safe_of_returns {script : Script σ Job α} (returns : ∀ mark, script.Returns rules mark) :
    script.Safe rules :=
  fun mark => (returns mark).imp fun _ _ _ => trivial

/-- After a script that is safe, the next one has to be ready for any mark. -/
theorem Safe.then {wanted : Mark → β → Prop} {script : Script σ Job α}
    {following : α → Script σ Job β} (first : script.Safe rules)
    (rest : ∀ value mark, (following value).Follows rules wanted mark) (mark : Mark) :
    (script.bind following).Follows rules wanted mark :=
  (follows_bind ..).2 ((first mark).imp fun after value _ => rest value after)

theorem Safe.bind {script : Script σ Job α} {following : α → Script σ Job β}
    (first : script.Safe rules) (rest : ∀ value, (following value).Safe rules) :
    (script.bind following).Safe rules :=
  first.then rest

/-- A script on a part of the state follows the rules of the whole, if these are kept by whatever
the rules of the part leave open. -/
theorem Follows.embed {part : Part σ τ} {rename : Other → Job} (inner : Protocol τ Other Mark)
    {wanted : Mark → α → Prop} {script : Script τ Other α} {mark : Mark}
    (hears : ∀ query reply, rules.hears query reply → inner.hears query reply)
    (sees : ∀ whole, rules.sees whole → inner.sees (part.get whole))
    (asks : ∀ mark query reply after, inner.asks mark query reply after →
      rules.asks mark query reply after)
    (steps : ∀ mark whole now after, inner.steps mark (part.get whole) now after →
      rules.steps mark whole (part.put now whole) after)
    (starts : ∀ mark job child after, inner.starts mark job child after →
      rules.starts mark (rename job) child after)
    (follows : script.Follows inner wanted mark) :
    (script.embed part rename).Follows rules wanted mark := by
  have startsAll {mark jobs children after} (open_ : inner.StartsAll mark jobs children after) :
      rules.StartsAll mark (jobs.map rename) children after := by
    induction open_ with
    | nil mark => exact .nil mark
    | cons first _ ih => exact .cons (starts _ _ _ _ first) ih
  induction script generalizing mark with
  | done value => exact follows
  | ask query next ih =>
    intro reply heard
    obtain ⟨after, open_, rest⟩ := follows reply (hears query reply heard)
    exact ⟨after, asks _ _ _ _ open_, ih reply rest⟩
  | step ready change next ih =>
    intro whole seen permitted
    obtain ⟨after, open_, rest⟩ := follows (part.get whole) (sees whole seen) permitted
    exact ⟨after, steps _ _ _ _ open_, ih (part.get whole) rest⟩
  | sleep millis stopped next ih => exact fun complete => ih complete (follows complete)
  | spawn job next ih =>
    obtain ⟨child, after, open_, rest⟩ := follows
    exact ⟨child, after, starts _ _ _ _ open_, ih rest⟩
  | gather jobs next ih =>
    obtain ⟨children, after, open_, rest⟩ := follows
    exact ⟨children, after, startsAll open_, ih rest⟩

theorem Follows.within (part : Part σ τ) {rename : Other → Job} {inner : Protocol τ Other Mark}
    {wanted : Mark → α → Prop} {script : Script τ Other α} {mark : Mark}
    (lawful : ∀ now whole, part.get (part.put now whole) = now)
    (follows : script.Follows inner wanted mark) :
    (script.embed part rename).Follows (inner.within part.get rename) wanted mark := by
  refine Follows.embed inner (fun _ _ heard => heard) (fun _ seen => seen)
    (fun _ _ _ _ isOpen => isOpen) ?_ (fun _ job _ _ isOpen => ⟨job, rfl, isOpen⟩) follows
  intro mark whole now after isOpen
  simpa only [Protocol.within, lawful] using isOpen

end Script

namespace RetryPolicy

variable {σ Job Mark α : Type} {rules : Protocol σ Job Mark} {mark : Mark}

/-- A call is repeated from one and the same mark: only a success may change it. -/
theorem run_follows {wanted : Mark → Except WorkerError α → Prop}
    {call : Script σ Job (Except WorkerError α)} (policy : RetryPolicy) (stopped : σ → Bool)
    (once : call.Follows rules (fun after result => wanted after result ∧
      ∀ error, result = .error error → after = mark ∧ ∀ reason, wanted mark (.error reason)) mark)
    (drawn : ∀ low high reply, rules.asks mark (.draw low high) reply mark) :
    (policy.run stopped call).Follows rules wanted mark := by
  have attempts (left earlier : Nat) :
      (policy.attempts stopped call left earlier).Follows rules wanted mark := by
    induction left generalizing earlier with
    | zero => exact once.imp fun _ _ done => done.1
    | succ left ih =>
      refine (Script.follows_bind ..).2 (once.imp fun after result done => ?_)
      cases result with
      | ok value => exact done.1
      | error error =>
        obtain ⟨same, failed⟩ := done.2 error rfl
        subst same
        dsimp only
        split
        · simp only [Script.bind_eq_bind, Script.follows_bind]
          intro pause _
          refine ⟨after, drawn _ _ pause, fun complete => ?_⟩
          cases complete with
          | true => exact ih (earlier + 1)
          | false => exact failed _
        · exact failed _
  exact attempts _ _

/-- A repeated store call. -/
theorem store_follows {call : StoreCall} {wanted : Mark → Except WorkerError call.Answer → Prop}
    (policy : RetryPolicy) (stopped : σ → Bool)
    (answered : ∀ answer, rules.hears (.store call) (.ok answer) →
      ∃ after, rules.asks mark (.store call) (.ok answer) after ∧ wanted after (.ok answer))
    (failed : ∀ error, rules.hears (.store call) (.error error) →
      rules.asks mark (.store call) (.error error) mark ∧ ∀ reason, wanted mark (.error reason))
    (drawn : ∀ low high reply, rules.asks mark (.draw low high) reply mark) :
    (policy.store stopped call : Script σ Job _).Follows rules wanted mark := by
  refine policy.run_follows stopped ((Script.follows_bind ..).2 fun reply heard => ?_) drawn
  cases reply with
  | ok answer =>
    obtain ⟨after, isOpen, held⟩ := answered answer heard
    exact ⟨after, isOpen, held, nofun⟩
  | error error =>
    obtain ⟨isOpen, held⟩ := failed error heard
    exact ⟨mark, isOpen, held _, fun _ _ => ⟨rfl, held⟩⟩

end RetryPolicy

end LeaseFleet
