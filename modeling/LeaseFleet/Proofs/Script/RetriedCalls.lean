import Mathlib.Order.Bounds.Basic
import LeaseFleet.Proofs.Script.TimedRuns
import LeaseFleet.Script.Retry

/-!
# Repeated calls in time

A call that is repeated, whatever it does and however each repetition ends. The calls that are made are a
list, each with its outcome and the pause after it (`Attempt`). `RetryPolicy.Tried` says how such a list
follows a policy, and every run has one (`RetryPolicy.tried_of_lasts`), as every sequence of outcomes and
every choice of pauses has a run (`RetryPolicy.exists_tried`).
-/

namespace LeaseFleet

/-- A pause for some milliseconds, which ended at an instant. -/
structure Pause where
  millis : Nat
  till : Nat
  complete : Bool

/-- One of the calls that are made, from its beginning to its end, and the pause after it. -/
structure Attempt (σ α : Type) where
  began : Nat
  acts : List (TimedAct σ)
  ended : Nat
  outcome : Except WorkerError α
  pause : Option Pause

namespace Attempt

variable {σ α : Type}

/-- When the call and its pause are over. -/
def finish (attempt : Attempt σ α) : Nat := (attempt.pause.map Pause.till).getD attempt.ended

/-- Whether the call failed in a way that may pass. -/
def MayPass (attempt : Attempt σ α) : Prop :=
  ∃ error, attempt.outcome = .error error ∧ error.isRetryable = true

/-- Whether the pause was cut. -/
def IsCut (attempt : Attempt σ α) : Prop := ∃ pause, attempt.pause = some pause ∧ pause.complete = false

/-- Whether the pause was waited out. -/
def GoesOn (attempt : Attempt σ α) : Prop := ∃ pause, attempt.pause = some pause ∧ pause.complete = true

/-- What the run comes to if this was its last call. -/
def result (attempt : Attempt σ α) : Except WorkerError α :=
  match attempt.pause with
  | some pause => if pause.complete then attempt.outcome else .error .shuttingDown
  | none => attempt.outcome

/-- What the call and its pause show, after some earlier calls. -/
def shown (policy : RetryPolicy) (earlier : Nat) (attempt : Attempt σ α) : List (TimedAct σ) :=
  match attempt.pause with
  | none => attempt.acts
  | some pause => attempt.acts ++
    [.asked attempt.ended (.draw (policy.shortestPause earlier) (policy.longestPause earlier)) pause.millis
      attempt.ended, .slept attempt.ended pause.millis pause.till pause.complete]

end Attempt

namespace RetryPolicy

variable {σ Job α : Type} {course : Course σ Job} {policy : RetryPolicy} {stopped : σ → Bool}
  {call : Script σ Job (Except WorkerError α)} {attempt : Attempt σ α} {tries : List (Attempt σ α)}
  {limit left earlier since till : Nat} {acts : List (TimedAct σ)} {result : Except WorkerError α}

/-- A call is made after some earlier ones, and a pause follows if it failed in a way that may pass and
another call is allowed. -/
structure Follows (course : Course σ Job) (policy : RetryPolicy) (stopped : σ → Bool)
    (call : Script σ Job (Except WorkerError α)) (earlier : Nat) (more : Prop) (attempt : Attempt σ α) :
    Prop where
  called : call.Lasts course attempt.began attempt.acts attempt.ended attempt.outcome
  paused : attempt.pause ≠ none ↔ attempt.MayPass ∧ more
  within : ∀ pause, attempt.pause = some pause →
    pause.millis ∈ Set.Icc (policy.shortestPause earlier) (policy.longestPause earlier)
  rests : ∀ pause, attempt.pause = some pause →
    course.Rests stopped attempt.ended pause.millis pause.till pause.complete

/-- A list of calls that a run with a policy makes, up to a number of them and after some earlier ones. -/
structure Tried (course : Course σ Job) (policy : RetryPolicy) (stopped : σ → Bool)
    (call : Script σ Job (Except WorkerError α)) (limit earlier since : Nat) (tries : List (Attempt σ α))
    (acts : List (TimedAct σ)) (till : Nat) (result : Except WorkerError α) : Prop where
  any : 0 < tries.length
  /-- Nothing else is done. -/
  shown : acts = (tries.mapIdx fun i attempt => attempt.shown policy (earlier + i)).flatten
  first : ∀ attempt, tries[0]? = some attempt → attempt.began = since
  next : ∀ (i : Nat) attempt later, tries[i]? = some attempt → tries[i + 1]? = some later →
    later.began = attempt.finish
  follows : ∀ (i : Nat) attempt, tries[i]? = some attempt →
    Follows course policy stopped call (earlier + i) (i + 1 < limit) attempt
  goesOn : ∀ (i : Nat) attempt, tries[i]? = some attempt → (attempt.GoesOn ↔ i + 1 < tries.length)
  ends : ∀ attempt, tries.getLast? = some attempt → till = attempt.finish ∧ result = attempt.result

/-- A call that is the last one. -/
theorem Tried.single (follows : Follows course policy stopped call earlier (1 < limit) attempt)
    (ended : ¬attempt.GoesOn) :
    Tried course policy stopped call limit earlier attempt.began [attempt] (attempt.shown policy earlier)
      attempt.finish attempt.result where
  any := Nat.one_pos
  shown := by simp
  first := by simp
  next := by simp
  follows i other known := by
    cases i with
    | zero =>
      obtain rfl := Option.some.inj known
      exact follows
    | succ => cases known
  goesOn i other known := by
    cases i with
    | zero =>
      obtain rfl := Option.some.inj known
      exact iff_of_false ended (Nat.lt_irrefl 1)
    | succ => cases known
  ends := by simp

/-- A call after which others follow. -/
theorem Tried.cons (follows : Follows course policy stopped call earlier (1 < limit + 1) attempt)
    (goesOn : attempt.GoesOn)
    (tried : Tried course policy stopped call limit (earlier + 1) attempt.finish tries acts till result) :
    Tried course policy stopped call (limit + 1) earlier attempt.began (attempt :: tries)
      (attempt.shown policy earlier ++ acts) till result where
  any := Nat.succ_pos _
  shown := by
    rw [tried.shown, List.mapIdx_cons, List.flatten_cons]
    simp only [Nat.add_zero, Nat.add_assoc, Nat.add_comm 1]
  first := by simp
  next i other later known isLater := by
    cases i with
    | zero =>
      obtain rfl := Option.some.inj known
      exact tried.first later isLater
    | succ i => exact tried.next i other later known isLater
  follows i other known := by
    cases i with
    | zero =>
      obtain rfl := Option.some.inj known
      exact follows
    | succ i =>
      have later := tried.follows i other known
      rw [Nat.add_assoc, Nat.add_comm 1 i] at later
      exact { later with paused := by rw [later.paused, Nat.add_lt_add_iff_right] }
  goesOn i other known := by
    cases i with
    | zero =>
      obtain rfl := Option.some.inj known
      exact iff_of_true goesOn (by simp [tried.any])
    | succ i =>
      rw [tried.goesOn i other known, List.length_cons, Nat.add_lt_add_iff_right]
  ends other known := by
    refine tried.ends other ?_
    rwa [List.getLast?_cons_of_ne_nil] at known
    exact List.length_pos_iff.1 tried.any

/-! ## Runs -/

/-- A call without a pause. -/
theorem Follows.of_none {more : Prop}
    (called : call.Lasts course attempt.began attempt.acts attempt.ended attempt.outcome)
    (none : attempt.pause = none) (last : ¬(attempt.MayPass ∧ more)) :
    Follows course policy stopped call earlier more attempt where
  called := called
  paused := iff_of_false (fun some => some none) last
  within pause isPause := by cases none.symm.trans isPause
  rests pause isPause := by cases none.symm.trans isPause

theorem Follows.congr {more others : Prop} (same : more ↔ others)
    (follows : Follows course policy stopped call earlier more attempt) :
    Follows course policy stopped call earlier others attempt :=
  { follows with paused := by rw [follows.paused, same] }

theorem Follows.not_goesOn (follows : Follows course policy stopped call earlier False attempt) :
    ¬attempt.GoesOn := by
  rintro ⟨pause, isPause, _⟩
  exact (follows.paused.1 (by simp [isPause])).2

/-- The last call that is allowed. -/
theorem lasts_attempts_zero :
    (policy.attempts stopped call 0 earlier).Lasts course since acts till result ↔
      ∃ attempt, attempt.began = since ∧ Follows course policy stopped call earlier False attempt ∧
        acts = attempt.shown policy earlier ∧ till = attempt.finish ∧ result = attempt.result := by
  constructor
  · intro lasts
    exact ⟨⟨since, acts, till, result, none⟩, rfl, .of_none lasts rfl (·.2), rfl, rfl, rfl⟩
  · rintro ⟨⟨_, _, _, outcome, pause⟩, rfl, follows, rfl, rfl, rfl⟩
    cases pause with
    | none => exact follows.called
    | some pause => exact absurd (follows.paused.1 (by simp)).2 not_false

/-- What follows a call with an outcome if another call is allowed. -/
def afterCall (policy : RetryPolicy) (stopped : σ → Bool) (call : Script σ Job (Except WorkerError α))
    (left earlier : Nat) : Except WorkerError α → Script σ Job (Except WorkerError α)
  | .ok value => .done (.ok value)
  | .error error =>
    if error.isRetryable then
      (Script.query (.draw (policy.shortestPause earlier) (policy.longestPause earlier))).bind fun pause =>
        (Script.sleep pause stopped .done).bind fun complete =>
          if complete then policy.attempts stopped call left (earlier + 1)
          else .done (.error .shuttingDown)
    else .done (.error error)

theorem attempts_succ : policy.attempts stopped call (left + 1) earlier =
    call.bind (policy.afterCall stopped call left earlier) := rfl

/-- An outcome that stays. -/
theorem lasts_afterCall_of_final {outcome : Except WorkerError α}
    (final : ¬∃ error, outcome = .error error ∧ error.isRetryable = true) :
    (policy.afterCall stopped call left earlier outcome).Lasts course since acts till result ↔
      acts = [] ∧ till = since ∧ result = outcome := by
  cases outcome with
  | ok value => exact Script.lasts_done
  | error error =>
    have lasting : ¬error.isRetryable = true := fun passing => final ⟨error, rfl, passing⟩
    rw [afterCall, if_neg lasting]
    exact Script.lasts_done

/-- A failure that may pass is followed by a pause, and by further calls if that is waited out. -/
theorem lasts_afterCall_of_passing {error : WorkerError} (passing : error.isRetryable = true) :
    (policy.afterCall stopped call left earlier (.error error)).Lasts course since acts till result ↔
      ∃ (pause : Pause) (rest : List (TimedAct σ)),
        pause.millis ∈ Set.Icc (policy.shortestPause earlier) (policy.longestPause earlier) ∧
        course.Rests stopped since pause.millis pause.till pause.complete ∧
        acts = .asked since (.draw (policy.shortestPause earlier) (policy.longestPause earlier))
          pause.millis since :: .slept since pause.millis pause.till pause.complete :: rest ∧
        ((pause.complete = false ∧ rest = [] ∧ till = pause.till ∧ result = .error .shuttingDown) ∨
          (pause.complete = true ∧
            (policy.attempts stopped call left (earlier + 1)).Lasts course pause.till rest till result)) := by
  rw [afterCall, if_pos passing]
  constructor
  · intro lasts
    obtain ⟨millis, drawn, _, answers, afterDraw, rfl⟩ := Script.lasts_query.1 lasts
    obtain ⟨atLeast, atMost, rfl⟩ := Course.answers_draw.1 answers
    obtain ⟨complete, finish, rest, rests, afterPause, rfl⟩ := Script.lasts_sleep.1 afterDraw
    refine ⟨⟨millis, finish, complete⟩, rest, ⟨atLeast, atMost⟩, rests, rfl, ?_⟩
    cases complete with
    | true => exact .inr ⟨rfl, afterPause⟩
    | false => exact .inl ⟨rfl, Script.lasts_done.1 afterPause⟩
  · rintro ⟨⟨millis, finish, complete⟩, rest, ⟨atLeast, atMost⟩, rests, rfl, follows⟩
    refine Script.lasts_query.2 ⟨millis, since, _, Course.answers_draw.2 ⟨atLeast, atMost, rfl⟩,
      Script.lasts_sleep.2 ⟨complete, finish, rest, rests, ?_, rfl⟩, rfl⟩
    obtain ⟨rfl, ended⟩ | ⟨rfl, goesOn⟩ := follows
    · exact Script.lasts_done.2 ended
    · exact goesOn

/-- A call after which another one is allowed. -/
theorem lasts_attempts_succ :
    (policy.attempts stopped call (left + 1) earlier).Lasts course since acts till result ↔
      ∃ attempt, attempt.began = since ∧ Follows course policy stopped call earlier True attempt ∧
        ((¬attempt.GoesOn ∧ acts = attempt.shown policy earlier ∧ till = attempt.finish ∧
            result = attempt.result) ∨
          (attempt.GoesOn ∧ ∃ rest,
            (policy.attempts stopped call left (earlier + 1)).Lasts course attempt.finish rest till result ∧
              acts = attempt.shown policy earlier ++ rest)) := by
  rw [attempts_succ, Script.lasts_bind]
  constructor
  · rintro ⟨first, ended, outcome, last, called, afterwards, rfl⟩
    by_cases mayPass : ∃ error, outcome = .error error ∧ error.isRetryable = true
    case neg =>
      obtain ⟨rfl, rfl, rfl⟩ := (lasts_afterCall_of_final mayPass).1 afterwards
      exact ⟨⟨since, first, till, result, none⟩, rfl, .of_none called rfl fun more => mayPass more.1,
        .inl ⟨by simp [Attempt.GoesOn], List.append_nil _, rfl, rfl⟩⟩
    case pos =>
      obtain ⟨error, rfl, passing⟩ := mayPass
      obtain ⟨pause, rest, within, rests, rfl, ending⟩ := (lasts_afterCall_of_passing passing).1 afterwards
      refine ⟨⟨since, first, ended, .error error, some pause⟩, rfl, ?_, ?_⟩
      · exact {
          called := called
          paused := iff_of_true (by simp) ⟨⟨error, rfl, passing⟩, trivial⟩
          within := fun _ same => Option.some.inj same ▸ within
          rests := fun _ same => Option.some.inj same ▸ rests }
      · obtain ⟨millis, paused, complete⟩ := pause
        obtain ⟨rfl, rfl, rfl, rfl⟩ | ⟨rfl, goesOn⟩ := ending
        · exact .inl ⟨by simp [Attempt.GoesOn], rfl, rfl, rfl⟩
        · exact .inr ⟨⟨_, rfl, rfl⟩, rest, goesOn, by simp [Attempt.shown]⟩
  · rintro ⟨⟨_, first, ended, outcome, pause⟩, rfl, follows, ending⟩
    cases pause with
    | none =>
      have final (mayPass : ∃ error, outcome = .error error ∧ error.isRetryable = true) : False :=
        follows.paused.2 ⟨mayPass, trivial⟩ rfl
      obtain ⟨_, rfl, rfl, rfl⟩ | ⟨⟨_, isPause, _⟩, _⟩ := ending
      · exact ⟨acts, till, result, [], follows.called,
          (lasts_afterCall_of_final final).2 ⟨rfl, rfl, rfl⟩, (List.append_nil _).symm⟩
      · cases isPause
    | some pause =>
      obtain ⟨error, rfl, passing⟩ := (follows.paused.1 (by simp)).1
      have within := follows.within pause rfl
      have rests := follows.rests pause rfl
      obtain ⟨ends, rfl, rfl, rfl⟩ | ⟨⟨_, same, complete⟩, rest, goesOn, rfl⟩ := ending
      · have cut : pause.complete = false := Bool.eq_false_iff.2 fun complete => ends ⟨_, rfl, complete⟩
        refine ⟨first, ended, _, _, follows.called, (lasts_afterCall_of_passing passing).2
          ⟨pause, [], within, rests, rfl, .inl ⟨cut, rfl, rfl, ?_⟩⟩, rfl⟩
        cases pause
        cases cut
        rfl
      · obtain rfl := Option.some.inj same
        exact ⟨first, ended, _, _, follows.called, (lasts_afterCall_of_passing passing).2
          ⟨pause, rest, within, rests, rfl, .inr ⟨complete, goesOn⟩⟩, List.append_assoc ..⟩

/-- A call that never fails in a way that may pass is made once. -/
theorem lasts_run_of_final
    (final : ∀ since acts till outcome, call.Lasts course since acts till outcome →
      ¬∃ error, outcome = .error error ∧ error.isRetryable = true) :
    (policy.run stopped call).Lasts course since acts till result ↔
      call.Lasts course since acts till result := by
  unfold run
  cases policy.maxAttempts - 1 with
  | zero => exact Iff.rfl
  | succ left =>
    rw [attempts_succ, Script.lasts_bind]
    constructor
    · rintro ⟨first, ended, outcome, last, called, afterwards, rfl⟩
      obtain ⟨rfl, rfl, rfl⟩ := (lasts_afterCall_of_final (final _ _ _ _ called)).1 afterwards
      rwa [List.append_nil]
    · intro called
      exact ⟨acts, till, result, [], called,
        (lasts_afterCall_of_final (final _ _ _ _ called)).2 ⟨rfl, rfl, rfl⟩, (List.append_nil _).symm⟩

/-- Every run makes calls as the policy wants it. -/
theorem tried_of_lasts
    (lasts : (policy.attempts stopped call left earlier).Lasts course since acts till result) :
    ∃ tries, Tried course policy stopped call (left + 1) earlier since tries acts till result := by
  induction left generalizing earlier since acts with
  | zero =>
    obtain ⟨attempt, rfl, follows, rfl, rfl, rfl⟩ := lasts_attempts_zero.1 lasts
    exact ⟨[attempt], .single (follows.congr (by simp)) follows.not_goesOn⟩
  | succ left ih =>
    obtain ⟨attempt, rfl, follows, ending⟩ := lasts_attempts_succ.1 lasts
    have more : Follows course policy stopped call earlier (1 < left + 1 + 1) attempt :=
      follows.congr (by simp)
    obtain ⟨ends, rfl, rfl, rfl⟩ | ⟨goesOn, rest, later, rfl⟩ := ending
    · exact ⟨[attempt], .single more ends⟩
    · obtain ⟨tries, tried⟩ := ih later
      exact ⟨attempt :: tries, .cons more goesOn tried⟩

/-- A call with an outcome and the pause after it, if one is due. -/
theorem exists_follows (stopped : σ → Bool) {first : List (TimedAct σ)} {ended drawn : Nat}
    {outcome : Except WorkerError α} (more : Prop) (called : call.Lasts course since first ended outcome)
    (within : drawn ∈ Set.Icc (policy.shortestPause earlier) (policy.longestPause earlier)) :
    ∃ attempt, attempt.began = since ∧ Follows course policy stopped call earlier more attempt ∧
      attempt.outcome = outcome ∧ ∀ pause, attempt.pause = some pause → pause.millis = drawn := by
  by_cases due : (∃ error, outcome = .error error ∧ error.isRetryable = true) ∧ more
  case pos =>
    obtain ⟨finish, complete, rests⟩ := course.exists_rests stopped ended drawn
    refine ⟨⟨since, first, ended, outcome, some ⟨drawn, finish, complete⟩⟩, rfl, ?_, rfl, by simp⟩
    exact {
      called := called
      paused := iff_of_true (by simp) due
      within := fun _ same => Option.some.inj same ▸ within
      rests := fun _ same => Option.some.inj same ▸ rests }
  case neg =>
    exact ⟨⟨since, first, ended, outcome, none⟩, rfl, .of_none called rfl due, rfl, by simp⟩

/-- The calls have given outcomes and pauses, those of the first one after some earlier ones. -/
def Agree (outcomes : Nat → Except WorkerError α) (drawn : Nat → Nat) (earlier : Nat)
    (tries : List (Attempt σ α)) : Prop :=
  ∀ (i : Nat) attempt, tries[i]? = some attempt → attempt.outcome = outcomes (earlier + i) ∧
    ∀ pause, attempt.pause = some pause → pause.millis = drawn (earlier + i)

theorem Agree.cons {outcomes : Nat → Except WorkerError α} {drawn : Nat → Nat}
    (outcome : attempt.outcome = outcomes earlier)
    (draws : ∀ pause, attempt.pause = some pause → pause.millis = drawn earlier)
    (agree : Agree outcomes drawn (earlier + 1) tries) : Agree outcomes drawn earlier (attempt :: tries) := by
  intro i other known
  cases i with
  | zero =>
    obtain rfl := Option.some.inj known
    exact ⟨outcome, draws⟩
  | succ i =>
    rw [← Nat.add_assoc, Nat.add_right_comm]
    exact agree i other known

/-- Whatever comes of the calls and whichever pauses are drawn, there is a run. -/
theorem exists_tried {outcomes : Nat → Except WorkerError α} {drawn : Nat → Nat}
    (answered : ∀ i since, ∃ acts till, call.Lasts course since acts till (outcomes i))
    (within : ∀ i, drawn i ∈ Set.Icc (policy.shortestPause i) (policy.longestPause i))
    (left earlier since : Nat) :
    ∃ acts till result tries,
      (policy.attempts stopped call left earlier).Lasts course since acts till result ∧
      Tried course policy stopped call (left + 1) earlier since tries acts till result ∧
      Agree outcomes drawn earlier tries := by
  have none (earlier : Nat) : Agree (σ := σ) outcomes drawn earlier [] := fun i _ known => nomatch known
  induction left generalizing earlier since with
  | zero =>
    obtain ⟨first, ended, called⟩ := answered earlier since
    obtain ⟨attempt, rfl, follows, outcome, draws⟩ :=
      exists_follows stopped False called (within earlier)
    exact ⟨_, _, _, [attempt], lasts_attempts_zero.2 ⟨attempt, rfl, follows, rfl, rfl, rfl⟩,
      .single (follows.congr (by simp)) follows.not_goesOn, .cons outcome draws (none _)⟩
  | succ left ih =>
    obtain ⟨first, ended, called⟩ := answered earlier since
    obtain ⟨attempt, rfl, follows, outcome, draws⟩ :=
      exists_follows stopped True called (within earlier)
    have more : Follows course policy stopped call earlier (1 < left + 1 + 1) attempt :=
      follows.congr (by simp)
    by_cases goesOn : attempt.GoesOn
    case neg =>
      exact ⟨_, _, _, [attempt],
        lasts_attempts_succ.2 ⟨attempt, rfl, follows, .inl ⟨goesOn, rfl, rfl, rfl⟩⟩, .single more goesOn,
        .cons outcome draws (none _)⟩
    case pos =>
      obtain ⟨rest, till, result, tries, lasts, tried, agree⟩ := ih (earlier + 1) attempt.finish
      exact ⟨_, till, result, attempt :: tries,
        lasts_attempts_succ.2 ⟨attempt, rfl, follows, .inr ⟨goesOn, rest, lasts, rfl⟩⟩,
        .cons more goesOn tried, .cons outcome draws agree⟩

/-- The numbers of calls after which a run may be over: the last of them succeeds or fails for good, no
other is allowed, or the pause after it is cut. -/
def endings (policy : RetryPolicy) (outcomes : Nat → Except WorkerError α) (tries : List (Attempt σ α)) :
    Set Nat :=
  {calls | ∃ i, calls = i + 1 ∧
    ((∃ value, outcomes i = .ok value) ∨
      (∃ error, outcomes i = .error error ∧ error.isRetryable = false) ∨
      calls = policy.maxAttempts ∨ ∃ attempt, tries[i]? = some attempt ∧ attempt.IsCut)}

namespace Tried

variable {outcomes : Nat → Except WorkerError α}

/-- A call that others follow is none of those after which a run may be over. -/
theorem passing_of_goesOn
    (tried : Tried course policy stopped call limit earlier since tries acts till result) {i : Nat}
    (known : tries[i]? = some attempt) (later : i + 1 < tries.length) :
    attempt.MayPass ∧ i + 1 < limit ∧ ¬attempt.IsCut := by
  obtain ⟨pause, isPause, complete⟩ := (tried.goesOn i attempt known).2 later
  obtain ⟨mayPass, more⟩ := (tried.follows i attempt known).paused.1 (by simp [isPause])
  refine ⟨mayPass, more, ?_⟩
  rintro ⟨other, isOther, cut⟩
  rw [isPause, Option.some.injEq] at isOther
  subst isOther
  rw [complete] at cut
  cases cut

theorem length_le (tried : Tried course policy stopped call limit earlier since tries acts till result)
    (allowed : 0 < limit) : tries.length ≤ limit := by
  by_contra longer
  have known := List.getElem?_eq_getElem (l := tries) (i := limit - 1) (by omega)
  have more := (tried.passing_of_goesOn known (by omega)).2.1
  omega

/-- A run makes the least number of calls after which it may be over. -/
theorem isLeast
    (tried : Tried course policy stopped call policy.maxAttempts 0 since tries acts till result)
    (allowed : 0 < policy.maxAttempts)
    (agree : ∀ (i : Nat) attempt, tries[i]? = some attempt → attempt.outcome = outcomes i) :
    IsLeast (policy.endings outcomes tries) tries.length := by
  have any := tried.any
  constructor
  · have known := List.getElem?_eq_getElem (l := tries) (i := tries.length - 1) (by omega)
    have atMost := tried.length_le allowed
    refine ⟨tries.length - 1, by omega, ?_⟩
    rw [← agree _ _ known]
    generalize tries[tries.length - 1] = attempt at known
    have last : ¬attempt.GoesOn := fun goesOn => by
      have := (tried.goesOn _ attempt known).1 goesOn
      omega
    cases paused : attempt.pause with
    | some pause =>
      have cut : pause.complete = false := Bool.eq_false_iff.2 fun complete => last ⟨pause, paused, complete⟩
      exact .inr (.inr (.inr ⟨attempt, known, pause, paused, cut⟩))
    | none =>
      have final := (not_congr (tried.follows _ attempt known).paused).1 (not_not.2 paused)
      cases outcome : attempt.outcome with
      | ok value => exact .inl ⟨value, rfl⟩
      | error error =>
        cases passing : error.isRetryable with
        | false => exact .inr (.inl ⟨error, rfl, passing⟩)
        | true =>
          have full : ¬tries.length - 1 + 1 < policy.maxAttempts :=
            fun more => final ⟨⟨error, outcome, passing⟩, more⟩
          exact .inr (.inr (.inl (by omega)))
  · rintro _ ⟨i, rfl, ending⟩
    by_contra fewer
    have later : i + 1 < tries.length := Nat.not_le.1 fewer
    have known := List.getElem?_eq_getElem (Nat.lt_of_succ_lt later)
    obtain ⟨⟨error, outcome, passing⟩, more, notCut⟩ := tried.passing_of_goesOn known later
    rw [agree _ _ known] at outcome
    obtain ⟨value, ok⟩ | ⟨other, failed, lasting⟩ | full | ⟨attempt, isAttempt, cut⟩ := ending
    · cases outcome.symm.trans ok
    · cases outcome.symm.trans failed
      rw [passing] at lasting
      cases lasting
    · omega
    · cases known.symm.trans isAttempt
      exact notCut cut

end Tried

/-- A run with a policy, while a place is told to stop at some instant or never. Whatever comes of its calls
and whichever pauses are drawn, it comes to an end. It makes these calls and pauses and nothing else: a pause
follows a failure that may pass while attempts are left, it is at least one half of what the number of
earlier pauses allows and at most all of it, and it is cut exactly where the place is told to stop. The
number of calls is the least after which the run may be over, and their last outcome is the result unless
the pause after it is cut. -/
theorem run_accounted {stop : Option Nat} (stops : course.Stops stopped stop)
    (call : Script σ Job (Except WorkerError α)) (attempts base longest : Nat) :
    let policy := RetryPolicy.ofLimits attempts base longest
    (∀ (outcomes : Nat → Except WorkerError α) (drawn : Nat → Nat) (start : Nat),
      (∀ i since, ∃ acts till, call.Lasts course since acts till (outcomes i)) →
      (∀ i, drawn i ∈ Set.Icc (policy.shortestPause i) (policy.longestPause i)) →
        ∃ acts finish result tries, (policy.run stopped call).Lasts course start acts finish result ∧
          Tried course policy stopped call (max attempts 1) 0 start tries acts finish result ∧
          Agree outcomes drawn 0 tries) ∧
    (∀ i, (Set.Icc (policy.shortestPause i) (policy.longestPause i)).Nonempty) ∧
    ∀ start acts finish result, (policy.run stopped call).Lasts course start acts finish result →
      ∃ tries, Tried course policy stopped call (max attempts 1) 0 start tries acts finish result ∧
        (∀ outcomes, (∀ (i : Nat) attempt, tries[i]? = some attempt → attempt.outcome = outcomes i) →
          IsLeast (policy.endings outcomes tries) tries.length) ∧
        ∀ (i : Nat) attempt pause, tries[i]? = some attempt → attempt.pause = some pause →
          min (policy.baseBackoff * (i + 1)) policy.maxBackoff / 2 ≤ pause.millis ∧
          pause.millis ≤ min (policy.baseBackoff * (i + 1)) policy.maxBackoff ∧
          (pause.complete = true →
            pause.till = attempt.ended + pause.millis ∧ ∀ signal ∈ stop, pause.till ≤ signal) ∧
          (pause.complete = false →
            ∃ signal ∈ stop, signal ≤ attempt.ended + pause.millis ∧
              pause.till = max attempt.ended signal) := by
  intro policy
  have limit : policy.maxAttempts - 1 + 1 = max attempts 1 :=
    Nat.sub_add_cancel (Nat.le_max_right attempts 1)
  refine ⟨fun outcomes drawn start answered within => ?_,
    fun i => Set.nonempty_Icc.2 (policy.shortestPause_le_longestPause i),
    fun start acts finish result lasts => ?_⟩
  · exact limit ▸ exists_tried answered within (policy.maxAttempts - 1) 0 start
  · obtain ⟨tries, tried⟩ := tried_of_lasts lasts
    rw [limit] at tried
    refine ⟨tries, tried, fun outcomes agree => tried.isLeast (Nat.le_max_right attempts 1) agree,
      fun i attempt pause known isPause => ?_⟩
    have follows := tried.follows i attempt known
    obtain ⟨atLeast, atMost⟩ := follows.within pause isPause
    rw [Nat.zero_add] at atLeast atMost
    refine ⟨atLeast, atMost, fun complete => ?_, fun cut => ?_⟩
    · exact (complete ▸ follows.rests pause isPause).le_signal stops
    · exact (cut ▸ follows.rests pause isPause).eq_signal stops

/-- A place that is told to stop at an instant, where all questions are answered at once. -/
def interrupted (stop : Nat) : Course Bool Unit where
  states instant state := state = decide (stop ≤ instant)
  inhabited _ := ⟨_, rfl⟩
  serves since _ _ till := till = since
  gathers since _ till := till = since

theorem interrupted_stops (stop : Nat) : (interrupted stop).Stops id (some stop) where
  before instant state here stopped := ⟨stop, rfl, of_decide_eq_true (here.symm.trans stopped)⟩
  signalled signal told := by
    obtain rfl := Option.some.inj told
    exact ⟨true, by simp [interrupted], rfl⟩
  after signal told instant state later here := by
    obtain rfl := Option.some.inj told
    exact here.trans (by simpa using later.le)

/-- Asks once whether the table is empty. -/
def askOnce : Script Bool Unit (Except WorkerError Bool) :=
  (Script.call .isEmpty).bind fun reply => .done (reply.mapError .store)

theorem askOnce_lasts {stop since till : Nat} {acts : List (TimedAct Bool)} {result : Except WorkerError Bool}
    (lasts : askOnce.Lasts (interrupted stop) since acts till result) : till = since := by
  obtain ⟨reply, between, rest, answers, ended, rfl⟩ := Script.lasts_query.1 lasts
  obtain ⟨_, rfl, _⟩ := Script.lasts_done.1 ended
  exact (Course.answers_store.1 answers).2

/-- A call that fails is not repeated if its pause of 100 milliseconds is cut after 50. -/
theorem run_accounted_of_interrupted :
    (interrupted 50).Stops id (some 50) ∧ ∃ acts,
      ((ofLimits 3 100 1000).run id askOnce).Lasts (interrupted 50) 0 acts 50 (.error .shuttingDown) := by
  have stops := interrupted_stops 50
  obtain ⟨runs, pauses, accounted⟩ := run_accounted stops askOnce 3 100 1000
  refine ⟨stops, ?_⟩
  obtain ⟨acts, finish, result, tries, lasts, tried, agree⟩ := runs
    (fun _ => .error (.store (.transient "down"))) (ofLimits 3 100 1000).longestPause 0
    (fun i since => ⟨_, since, Script.lasts_query.2 ⟨.error (.transient "down"), since, [],
      Course.answers_store.2 ⟨Nat.le_refl _, rfl⟩, .done .., rfl⟩⟩)
    (fun i => ⟨RetryPolicy.shortestPause_le_longestPause _ i, Nat.le_refl _⟩)
  obtain ⟨attempt, known⟩ : ∃ attempt, tries[0]? = some attempt := ⟨_, List.getElem?_eq_getElem tried.any⟩
  obtain ⟨outcome, draws⟩ := agree 0 attempt known
  have follows := tried.follows 0 attempt known
  have ended : attempt.ended = 0 := (askOnce_lasts follows.called).trans (tried.first attempt known)
  obtain ⟨⟨millis, paused, complete⟩, isPause⟩ :=
    Option.ne_none_iff_exists'.1 (follows.paused.2 ⟨⟨_, outcome, rfl⟩, by decide⟩)
  obtain rfl : millis = 100 := draws _ isPause
  have rests := follows.rests _ isPause
  obtain rfl : complete = false := Bool.eq_false_iff.2 fun isComplete => by
    obtain ⟨whole, early⟩ := (isComplete ▸ rests).le_signal stops
    have := early 50 rfl
    dsimp only at this whole
    omega
  obtain ⟨_, ⟨⟩, _, cut⟩ := rests.eq_signal stops
  rw [ended] at cut
  have single : tries.length = 1 := by
    have last : ¬attempt.GoesOn := by simp [Attempt.GoesOn, isPause]
    have any := tried.any
    rw [tried.goesOn 0 attempt known] at last
    omega
  obtain ⟨rfl, rfl⟩ := tried.ends attempt (by rw [List.getLast?_eq_getElem?, single, known])
  have finish : attempt.finish = 50 := by
    rw [Attempt.finish, isPause]
    exact cut
  have result : attempt.result = .error .shuttingDown := by
    rw [Attempt.result, isPause]
    rfl
  rw [finish, result] at lasts
  exact ⟨acts, lasts⟩

end RetryPolicy

end LeaseFleet
