import LeaseFleet.Proofs.Script.RetriedCalls
import LeaseFleet.Simulation.Fleet

/-!
# The wait for a filled table

A worker that finds the lease table empty checks it again and again before it fills the table itself. Here
the checks take no time and do not fail, and the place may be told to stop at some instant. A watch goes from
round to round (`Worker.Watches`), and it ends at the first check that finds the table filled, at a sleep that
is cut, or at the one check after the wait. The number of its rounds makes no difference, however long the
checks take (`Worker.shows_watchTable_of_more`).
-/

namespace LeaseFleet

/-! ## What a watch shows -/

/-- A sleep from one instant to another one, after its whole time or cut short. -/
structure Nap where
  since : Nat
  millis : Nat
  till : Nat
  complete : Bool

namespace TimedAct

variable {σ : Type}

/-- When the table was checked, and what was answered. -/
def checked? : TimedAct σ → Option (Nat × Except StoreError Bool)
  | asked since (.store .isEmpty) reply _ => some (since, reply)
  | _ => none

def napped? : TimedAct σ → Option Nap
  | slept since millis till complete => some { since, millis, till, complete }
  | _ => none

/-- Whether the clock was read. -/
def readsClock : TimedAct σ → Bool
  | asked _ .clock _ _ => true
  | _ => false

/-- The number that was drawn. -/
def drawn? : TimedAct σ → Option Nat
  | asked _ (.draw _ _) number _ => some number
  | _ => none

end TimedAct

section

variable {σ : Type}

def checksIn (acts : List (TimedAct σ)) : List (Nat × Except StoreError Bool) :=
  acts.filterMap TimedAct.checked?

def napsIn (acts : List (TimedAct σ)) : List Nap := acts.filterMap TimedAct.napped?

def drawsIn (acts : List (TimedAct σ)) : List Nat := acts.filterMap TimedAct.drawn?

end

namespace Worker

variable {course : Course Worker WorkerJob} {empty : Nat → Bool} {started wait interval : Nat}
  {since till : Nat} {acts : List (TimedAct Worker)} {result : Except WorkerError Bool}

/-- The table is checked at once and without fail. -/
def ChecksAtOnce (course : Course Worker WorkerJob) (empty : Nat → Bool) : Prop :=
  ∀ since reply till, course.serves since (.store .isEmpty) reply till ↔
    reply = .ok (empty since) ∧ till = since

/-- What a check of an instant shows. -/
def checkActs (worker : Worker) (empty : Nat → Bool) (instant : Nat) : List (TimedAct Worker) :=
  [.changed instant worker worker, .asked instant (.store .isEmpty) (.ok (empty instant)) instant]

theorem lasts_isTableEmpty (checks : ChecksAtOnce course empty) :
    isTableEmpty.Lasts course since acts till result ↔
      ∃ worker, course.states since worker ∧ acts = checkActs worker empty since ∧ till = since ∧
        result = .ok (empty since) := by
  have asks {since till : Nat} {acts : List (TimedAct Worker)} {result : Except WorkerError Bool} :
      ((Script.call .isEmpty).bind fun reply => .done (reply.mapError WorkerError.store) :
        WorkerScript (Except WorkerError Bool)).Lasts course since acts till result ↔
      acts = [.asked since (.store .isEmpty) (.ok (empty since)) since] ∧ till = since ∧
        result = .ok (empty since) := by
    refine Script.lasts_query.trans ⟨?_, ?_⟩
    · rintro ⟨reply, between, rest, answers, ended, rfl⟩
      obtain ⟨rfl, rfl⟩ := (checks ..).1 (Course.answers_store.1 answers).2
      obtain ⟨rfl, rfl, rfl⟩ := Script.lasts_done.1 ended
      exact ⟨rfl, rfl, rfl⟩
    · rintro ⟨rfl, rfl, rfl⟩
      exact ⟨_, _, [], Course.answers_store.2 ⟨Nat.le_refl _, (checks ..).2 ⟨rfl, rfl⟩⟩, .done .., rfl⟩
  have final {since till : Nat} {acts : List (TimedAct Worker)} {result : Except WorkerError Bool}
      (called : ((Script.call .isEmpty).bind fun reply => .done (reply.mapError WorkerError.store) :
        WorkerScript (Except WorkerError Bool)).Lasts course since acts till result) :
      ¬∃ error, result = .error error ∧ error.isRetryable = true := by
    obtain ⟨_, _, rfl⟩ := asks.1 called
    simp
  refine Script.lasts_look.trans ⟨?_, ?_⟩
  · rintro ⟨worker, rest, here, asked, rfl⟩
    obtain ⟨rfl, rfl, rfl⟩ := asks.1 ((RetryPolicy.lasts_run_of_final fun _ _ _ _ => final).1 asked)
    exact ⟨worker, here, rfl, rfl, rfl⟩
  · rintro ⟨worker, here, rfl, rfl, rfl⟩
    exact ⟨worker, _, here,
      (RetryPolicy.lasts_run_of_final fun _ _ _ _ => final).2 (asks.2 ⟨rfl, rfl, rfl⟩), rfl⟩

/-- What follows a check that found the table empty, or not. -/
def afterCheck (started wait interval rounds : Nat) :
    Except WorkerError Bool → WorkerScript (Except WorkerError Bool)
  | .error error => .done (.error error)
  | .ok false => .done (.ok false)
  | .ok true => (Script.sleep interval stopping .done).bind fun complete =>
    if complete then watchTable started wait interval rounds else .done (.error .shuttingDown)

theorem watchTable_succ (started wait interval rounds : Nat) :
    watchTable started wait interval (rounds + 1) = (Script.query .clock).bind fun time =>
      if wait < time - started then isTableEmpty
      else isTableEmpty.bind (afterCheck started wait interval rounds) :=
  rfl

/-- A round of the watch during the wait is a check and what follows it. -/
theorem lasts_watchTable_succ (checks : ChecksAtOnce course empty) {rounds : Nat}
    (during : since - started ≤ wait) :
    (watchTable started wait interval (rounds + 1)).Lasts course since acts till result ↔
      ∃ worker later, course.states since worker ∧
        acts = .asked since .clock since since :: (checkActs worker empty since ++ later) ∧
        (afterCheck started wait interval rounds (.ok (empty since))).Lasts course since later till
          result := by
  have goesOn : ¬wait < since - started := Nat.not_lt.2 during
  rw [watchTable_succ, Script.lasts_query]
  constructor
  · rintro ⟨time, _, _, answers, afterClock, rfl⟩
    obtain ⟨rfl, rfl⟩ := Course.answers_clock.1 answers
    rw [if_neg goesOn] at afterClock
    obtain ⟨_, _, _, later, checked, afterwards, rfl⟩ := Script.lasts_bind.1 afterClock
    obtain ⟨worker, here, rfl, rfl, rfl⟩ := (lasts_isTableEmpty checks).1 checked
    exact ⟨worker, later, here, rfl, afterwards⟩
  · rintro ⟨worker, later, here, rfl, afterwards⟩
    refine ⟨since, since, _, Course.answers_clock.2 ⟨rfl, rfl⟩, ?_, rfl⟩
    rw [if_neg goesOn]
    exact Script.lasts_bind.2 ⟨_, since, _, later,
      (lasts_isTableEmpty checks).2 ⟨worker, here, rfl, rfl, rfl⟩, afterwards, rfl⟩

/-- A watch from one round to another one, the last one being that after the wait. The table was empty at
each check but perhaps the last, and each nap between two checks was slept out. It was cut in a nap after
the last check, or this was the check after the wait or found the table filled. -/
structure Watches (course : Course Worker WorkerJob) (empty : Nat → Bool)
    (started interval first last round : Nat) (cut : Bool) (acts : List (TimedAct Worker)) (till : Nat)
    (result : Except WorkerError Bool) : Prop where
  first_le : first ≤ round
  le_last : round ≤ last
  stayed : ∀ i, first ≤ i → i < round → empty (started + i * interval) = true
  draws : drawsIn acts = []
  checks : checksIn acts = (List.range' first (round + 1 - first)).map fun i =>
    (started + i * interval, .ok (empty (started + i * interval)))
  naps : napsIn acts =
    ((List.range' first (round - first)).map fun i =>
      ⟨started + i * interval, interval, started + (i + 1) * interval, true⟩) ++
    if cut then [⟨started + round * interval, interval, till, false⟩] else []
  rests : ∀ nap ∈ napsIn acts, course.Rests stopping nap.since nap.millis nap.till nap.complete
  ends : if cut then empty (started + round * interval) = true ∧ round < last ∧
      result = .error .shuttingDown
    else till = started + round * interval ∧ result = .ok (empty (started + round * interval)) ∧
      (empty (started + round * interval) = true → round = last)

section

variable {first last round : Nat} {cut : Bool} {worker : Worker}

/-- A clock that is read does not count. -/
theorem Watches.clock {instant : Nat}
    (watches : Watches course empty started interval first last round cut acts till result) :
    Watches course empty started interval first last round cut
      (.asked instant .clock instant instant :: acts) till result :=
  { watches with
    draws := watches.draws
    checks := watches.checks
    naps := watches.naps
    rests := watches.rests }

/-- A check that is the last one. -/
theorem Watches.single (le_last : first ≤ last)
    (ends : empty (started + first * interval) = true → first = last) :
    Watches course empty started interval first last first false
      (checkActs worker empty (started + first * interval)) (started + first * interval)
      (.ok (empty (started + first * interval))) where
  first_le := Nat.le_refl _
  le_last := le_last
  stayed _ atLeast less := absurd atLeast (Nat.not_le.2 less)
  draws := rfl
  checks := by
    rw [Nat.add_sub_cancel_left]
    rfl
  naps := by
    rw [Nat.sub_self]
    rfl
  rests _ mem := nomatch mem
  ends := by
    rw [if_neg Bool.false_ne_true]
    exact ⟨rfl, rfl, ends⟩

/-- A check before a nap that is cut. -/
theorem Watches.interrupted (before : first < last) (stayed : empty (started + first * interval) = true)
    (rests : course.Rests stopping (started + first * interval) interval till false) :
    Watches course empty started interval first last first true
      (checkActs worker empty (started + first * interval) ++
        [.slept (started + first * interval) interval till false]) till (.error .shuttingDown) where
  first_le := Nat.le_refl _
  le_last := before.le
  stayed _ atLeast less := absurd atLeast (Nat.not_le.2 less)
  draws := rfl
  checks := by
    rw [Nat.add_sub_cancel_left]
    rfl
  naps := by
    rw [Nat.sub_self, if_pos rfl]
    rfl
  rests _ mem := by
    cases List.mem_singleton.1 mem
    exact rests
  ends := by
    rw [if_pos rfl]
    exact ⟨stayed, before, rfl⟩

/-- A check before a nap that is slept out. -/
theorem Watches.cons (stayed : empty (started + first * interval) = true)
    (rests : course.Rests stopping (started + first * interval) interval
      (started + (first + 1) * interval) true)
    (watches : Watches course empty started interval (first + 1) last round cut acts till result) :
    Watches course empty started interval first last round cut
      (checkActs worker empty (started + first * interval) ++
        .slept (started + first * interval) interval (started + (first + 1) * interval) true :: acts) till
      result where
  first_le := Nat.le_of_succ_le watches.first_le
  le_last := watches.le_last
  stayed i atLeast less := by
    obtain rfl | later := Nat.eq_or_lt_of_le atLeast
    · exact stayed
    · exact watches.stayed i later less
  draws := watches.draws
  checks := by
    have more : round + 1 - first = round + 1 - (first + 1) + 1 := by
      have := watches.first_le
      omega
    rw [more, List.range'_succ, List.map_cons, ← watches.checks]
    rfl
  naps := by
    have more : round - first = round - (first + 1) + 1 := by
      have := watches.first_le
      omega
    rw [more, List.range'_succ, List.map_cons, List.cons_append, ← watches.naps]
    rfl
  rests nap mem := by
    obtain rfl | mem := List.mem_cons.1 mem
    · exact rests
    · exact watches.rests nap mem
  ends := watches.ends

end

/-- Before the last round the wait is not over. -/
theorem elapsed_le (started : Nat) {rounds first : Nat} (positive : 0 < interval)
    (last : first + (rounds + 1) = wait / interval + 1) :
    started + first * interval - started ≤ wait := by
  rw [Nat.add_sub_cancel_left, ← Nat.le_div_iff_mul_le positive]
  omega

/-- A watch that has come to some round goes on as told. -/
theorem watches_of_lasts (checks : ChecksAtOnce course empty) (positive : 0 < interval) {rounds first : Nat}
    (last : first + rounds = wait / interval + 1)
    (lasts : (watchTable started wait interval rounds).Lasts course (started + first * interval) acts till
      result) :
    ∃ round cut, Watches course empty started interval first (wait / interval + 1) round cut acts till
      result := by
  induction rounds generalizing first acts with
  | zero =>
    obtain ⟨worker, here, rfl, rfl, rfl⟩ := (lasts_isTableEmpty checks).1 lasts
    exact ⟨first, false, .single last.le fun _ => last⟩
  | succ rounds ih =>
    have during := elapsed_le started positive last
    obtain ⟨worker, later, here, rfl, afterwards⟩ := (lasts_watchTable_succ checks during).1 lasts
    cases stayed : empty (started + first * interval) with
    | false =>
      rw [stayed] at afterwards
      obtain ⟨rfl, rfl, rfl⟩ := Script.lasts_done.1 afterwards
      rw [List.append_nil, ← stayed]
      exact ⟨first, false, (Watches.single (by omega) fun filled => by simp [stayed] at filled).clock⟩
    | true =>
      rw [stayed] at afterwards
      obtain ⟨complete, between, rest, rests, goesOn, rfl⟩ := Script.lasts_sleep.1 afterwards
      cases complete with
      | false =>
        obtain ⟨rfl, rfl, rfl⟩ := Script.lasts_done.1 goesOn
        exact ⟨first, true, (Watches.interrupted (by omega) stayed rests).clock⟩
      | true =>
        obtain rfl : between = started + (first + 1) * interval := by
          rw [(rests.whole rfl).1, Nat.add_assoc, Nat.succ_mul]
        obtain ⟨round, cut, watches⟩ := ih (by omega) goesOn
        exact ⟨round, cut, (Watches.cons stayed rests watches).clock⟩

/-- A watch always comes to an end. -/
theorem exists_watch (started : Nat) (checks : ChecksAtOnce course empty) (positive : 0 < interval)
    {rounds first : Nat}
    (last : first + rounds = wait / interval + 1) :
    ∃ acts till result, (watchTable started wait interval rounds).Lasts course
      (started + first * interval) acts till result := by
  induction rounds generalizing first with
  | zero =>
    obtain ⟨worker, here⟩ := course.inhabited (started + first * interval)
    exact ⟨_, _, _, (lasts_isTableEmpty checks).2 ⟨worker, here, rfl, rfl, rfl⟩⟩
  | succ rounds ih =>
    have during := elapsed_le started positive last
    obtain ⟨worker, here⟩ := course.inhabited (started + first * interval)
    have goesOn {later : List (TimedAct Worker)} {till : Nat} {result : Except WorkerError Bool}
        (afterwards : (afterCheck started wait interval rounds
          (.ok (empty (started + first * interval)))).Lasts course (started + first * interval) later till
            result) := (lasts_watchTable_succ checks during).2 ⟨worker, later, here, rfl, afterwards⟩
    cases stayed : empty (started + first * interval) with
    | false =>
      rw [stayed] at goesOn
      exact ⟨_, _, _, goesOn (.done ..)⟩
    | true =>
      rw [stayed] at goesOn
      obtain ⟨between, complete, rests⟩ := course.exists_rests stopping (started + first * interval) interval
      cases complete with
      | false =>
        exact ⟨_, _, _, goesOn (Script.lasts_sleep.2 ⟨false, between, [], rests, .done .., rfl⟩)⟩
      | true =>
        obtain rfl : between = started + (first + 1) * interval := by
          rw [(rests.whole rfl).1, Nat.add_assoc, Nat.succ_mul]
        obtain ⟨acts, till, result, lasts⟩ := ih (show first + 1 + rounds = wait / interval + 1 by omega)
        exact ⟨_, _, _, goesOn (Script.lasts_sleep.2 ⟨true, _, acts, rests, lasts, rfl⟩)⟩

/-! ## The rounds of a watch -/

/-- The script goes on from one instant to another one, and this is what it shows but for the readings of the
clock. -/
def Shows {α : Type} (course : Course Worker WorkerJob) (script : WorkerScript α) (since : Nat)
    (shown : List (TimedAct Worker)) (till : Nat) (value : α) : Prop :=
  ∃ acts, script.Lasts course since acts till value ∧ acts.filter (!·.readsClock) = shown

section

variable {α β : Type} {shown : List (TimedAct Worker)} {script : WorkerScript α}
  {one other : α → WorkerScript β} {value : β}

theorem Shows.bind_mono
    (goesOn : ∀ first between middle later, script.Lasts course since first between middle →
      Shows course (one middle) between later till value → Shows course (other middle) between later till value)
    (shows : Shows course (script.bind one) since shown till value) :
    Shows course (script.bind other) since shown till value := by
  obtain ⟨acts, lasts, rfl⟩ := shows
  obtain ⟨first, between, middle, last, begins, follows, rfl⟩ := Script.lasts_bind.1 lasts
  obtain ⟨last', follows', same⟩ := goesOn first between middle _ begins ⟨last, follows, rfl⟩
  refine ⟨first ++ last', Script.lasts_bind.2 ⟨_, _, _, _, begins, follows', rfl⟩, ?_⟩
  rw [List.filter_append, List.filter_append, same]

/-- Scripts that begin alike show the same if they go on alike. -/
theorem shows_bind_congr
    (alike : ∀ first between middle later, script.Lasts course since first between middle →
      (Shows course (one middle) between later till value ↔
        Shows course (other middle) between later till value)) :
    Shows course (script.bind one) since shown till value ↔
      Shows course (script.bind other) since shown till value :=
  ⟨.bind_mono fun first between middle later begins => (alike first between middle later begins).1,
    .bind_mono fun first between middle later begins => (alike first between middle later begins).2⟩

/-- The clock is read at once. -/
theorem shows_clock {next : Nat → WorkerScript β} :
    Shows course ((Script.query .clock).bind next) since shown till value ↔
      Shows course (next since) since shown till value := by
  constructor
  · rintro ⟨acts, lasts, rfl⟩
    obtain ⟨_, _, rest, answers, follows, rfl⟩ := Script.lasts_query.1 lasts
    obtain ⟨rfl, rfl⟩ := Course.answers_clock.1 answers
    exact ⟨rest, follows, rfl⟩
  · rintro ⟨rest, follows, rfl⟩
    exact ⟨_, Script.lasts_query.2 ⟨since, since, rest, Course.answers_clock.2 ⟨rfl, rfl⟩, follows, rfl⟩, rfl⟩

end

/-- A watch with rounds enough to outlast the wait shows the same with more of them. -/
theorem shows_watchTable_add {rounds : Nat} {shown : List (TimedAct Worker)} (begun : started ≤ since)
    (enough : wait < since - started + rounds * interval) (more : Nat) :
    Shows course (watchTable started wait interval (rounds + more)) since shown till result ↔
      Shows course (watchTable started wait interval rounds) since shown till result := by
  induction rounds generalizing since shown with
  | zero =>
    have late : wait < since - started := by rwa [Nat.zero_mul] at enough
    cases more with
    | zero => exact Iff.rfl
    | succ more =>
      rw [Nat.zero_add, watchTable_succ, shows_clock, if_pos late]
      exact Iff.rfl
  | succ rounds ih =>
    rw [Nat.succ_add, watchTable_succ, watchTable_succ, shows_clock, shows_clock]
    by_cases late : wait < since - started
    case pos => rw [if_pos late, if_pos late]
    case neg =>
      rw [if_neg late, if_neg late]
      refine shows_bind_congr fun _ checked reply _ check => ?_
      match reply with
      | .error _ | .ok false => exact Iff.rfl
      | .ok true =>
        refine shows_bind_congr fun _ woken complete _ sleep => ?_
        cases complete with
        | false => exact Iff.rfl
        | true =>
          obtain rfl : woken = checked + interval := by
            cases sleep with
            | sleep rests ended =>
              cases ended
              exact (rests.whole rfl).1
          -- so the next round begins an interval after this one, or later
          have later := check.le
          rw [Nat.succ_mul] at enough
          exact ih (by omega) (by omega)

/-- What ends the watch of a worker is the clock and not its rounds: with more of them it shows the same. -/
theorem shows_watchTable_of_more {shown : List (TimedAct Worker)} (positive : 0 < interval) (more : Nat) :
    Shows course (watchTable started wait interval (wait / interval + 1 + more)) started shown till result ↔
      Shows course (watchTable started wait interval (wait / interval + 1)) started shown till result := by
  refine shows_watchTable_add (Nat.le_refl _) ?_ more
  rw [Nat.sub_self, Nat.zero_add, Nat.mul_comm]
  exact Nat.lt_mul_div_succ wait positive

/-! ## The whole wait -/

namespace Watches

variable {first last round : Nat} {cut : Bool}

/-- Each nap is for an interval, and one that is cut is the end. -/
theorem of_nap (watches : Watches course empty started interval first last round cut acts till result)
    {nap : Nap} (mem : nap ∈ napsIn acts) :
    nap.millis = interval ∧ (nap.complete = false → till = nap.till ∧ result = .error .shuttingDown) := by
  have ends := watches.ends
  rw [watches.naps] at mem
  obtain whole | mem := List.mem_append.1 mem
  · obtain ⟨_, _, rfl⟩ := List.mem_map.1 whole
    exact ⟨rfl, fun isCut => nomatch isCut⟩
  · split at mem
    case isTrue told =>
      rw [if_pos told] at ends
      cases List.mem_singleton.1 mem
      exact ⟨rfl, fun _ => ⟨rfl, ends.2.2⟩⟩
    case isFalse => cases mem

/-- A nap is cut if the place is told to stop before its time is late, and only then or at that instant. -/
theorem heeds {stop : Option Nat}
    (watches : Watches course empty started interval first last round cut acts till result)
    (stops : course.Stops stopping stop) {nap : Nap} (mem : nap ∈ napsIn acts) :
    (∀ signal ∈ stop, signal < nap.since + interval → nap.complete = false) ∧
      (nap.complete = false → ∃ signal ∈ stop, signal ≤ nap.since + interval ∧
        nap.till = max nap.since signal) := by
  have rests := watches.rests nap mem
  rw [(watches.of_nap mem).1] at rests
  refine ⟨fun signal told early => Bool.eq_false_iff.2 fun complete => ?_, fun isCut => ?_⟩
  · obtain ⟨whole, late⟩ := (complete ▸ rests).le_signal stops
    have := late signal told
    omega
  · exact (isCut ▸ rests).eq_signal stops

/-- If the place is told to stop only after some later check, no nap is cut before that. -/
theorem uncut {stop : Option Nat}
    (watches : Watches course empty started interval first last round cut acts till result)
    (stops : course.Stops stopping stop) {later : Nat} (before : round < later)
    (late : ∀ signal ∈ stop, started + later * interval < signal) : cut = false := by
  refine Bool.eq_false_iff.2 fun isCut => ?_
  have mem : ⟨started + round * interval, interval, till, false⟩ ∈ napsIn acts := by
    rw [watches.naps, if_pos isCut]
    exact List.mem_append_right _ (List.mem_singleton.2 rfl)
  obtain ⟨signal, told, early, _⟩ := (watches.heeds stops mem).2 rfl
  have soon : (round + 1) * interval ≤ later * interval := Nat.mul_le_mul_right _ before
  have := late signal told
  rw [Nat.succ_mul] at soon
  dsimp only at early
  omega

/-- If the table stays empty, it is checked to the end. -/
theorem unfilled {stop : Option Nat}
    (watches : Watches course empty started interval 0 last round cut acts till result)
    (stops : course.Stops stopping stop) (late : ∀ signal ∈ stop, started + last * interval < signal)
    (stayed : ∀ i ≤ last, empty (started + i * interval) = true) :
    checksIn acts = (List.range (last + 1)).map (fun i => (started + i * interval, .ok true)) ∧
      till = started + last * interval ∧ result = .ok true := by
  have ends := watches.ends
  have here := stayed round watches.le_last
  cases cut with
  | true => cases watches.uncut stops ends.2.1 late
  | false =>
    obtain ⟨ended, answer, complete⟩ := ends
    obtain rfl := complete here
    refine ⟨?_, ended, answer.trans (by rw [here])⟩
    rw [watches.checks, Nat.sub_zero, ← List.range_eq_range']
    refine List.map_congr_left fun i mem => ?_
    rw [stayed i (Nat.le_of_lt_succ (List.mem_range.1 mem))]

/-- The first check that finds the table filled is the last one. -/
theorem filled {stop : Option Nat} {i : Nat}
    (watches : Watches course empty started interval 0 last round cut acts till result)
    (stops : course.Stops stopping stop) (within : i ≤ last)
    (late : ∀ signal ∈ stop, started + i * interval < signal)
    (stayed : ∀ j < i, empty (started + j * interval) = true)
    (found : empty (started + i * interval) = false) :
    checksIn acts = (List.range i).map (fun j => (started + j * interval, .ok true)) ++
        [(started + i * interval, .ok false)] ∧
      till = started + i * interval ∧ result = .ok false := by
  have ends := watches.ends
  have atMost : round ≤ i := by
    refine Nat.not_lt.1 fun less => ?_
    rw [watches.stayed i (Nat.zero_le _) less] at found
    cases found
  have same : round = i := by
    refine Nat.le_antisymm atMost (Nat.not_lt.1 fun less => ?_)
    obtain rfl := watches.uncut stops less late
    have := ends.2.2 (stayed round less)
    omega
  subst same
  cases cut with
  | true => cases found.symm.trans ends.1
  | false =>
    obtain ⟨ended, answer, _⟩ := ends
    refine ⟨?_, ended, answer.trans (by rw [found])⟩
    rw [watches.checks, Nat.sub_zero, ← List.range_eq_range', List.range_succ, List.map_append,
      List.map_singleton, found]
    refine congrArg (· ++ _) (List.map_congr_left fun j mem => ?_)
    rw [stayed j (List.mem_range.1 mem)]

end Watches

end Worker

/-- The waits that the bounds allow: from the lower one on and below the upper one, or the one bound. -/
def SchedulerSettings.AllowsWait (settings : SchedulerSettings) (wait : Nat) : Prop :=
  settings.minTableWait ≤ wait ∧
    (wait < settings.maxTableWait ∨ settings.minTableWait = settings.maxTableWait ∧
      wait = settings.minTableWait)

/-- What is drawn for a wait. -/
def SchedulerSettings.draws (settings : SchedulerSettings) (wait : Nat) : List Nat :=
  if settings.minTableWait < settings.maxTableWait then [wait] else []

namespace Worker

variable {course : Course Worker WorkerJob} {empty : Nat → Bool} {settings : SchedulerSettings}
  {start finish : Nat} {acts : List (TimedAct Worker)} {result : Except WorkerError Bool}

theorem lasts_tableWait (window : settings.minTableWait ≤ settings.maxTableWait) {wait : Nat} :
    (tableWait settings).Lasts course start acts finish wait ↔
      settings.AllowsWait wait ∧ finish = start ∧ acts = (settings.draws wait).map
        (.asked start (.draw settings.minTableWait (settings.maxTableWait - 1)) · start) := by
  unfold tableWait SchedulerSettings.AllowsWait SchedulerSettings.draws
  by_cases wide : settings.minTableWait < settings.maxTableWait
  case pos =>
    rw [if_pos wide, if_pos wide]
    refine Script.lasts_query.trans ⟨?_, ?_⟩
    · rintro ⟨number, _, _, answers, ended, rfl⟩
      obtain ⟨atLeast, atMost, rfl⟩ := Course.answers_draw.1 answers
      obtain ⟨rfl, rfl, rfl⟩ := Script.lasts_done.1 ended
      exact ⟨⟨atLeast, .inl (by omega)⟩, rfl, rfl⟩
    · rintro ⟨⟨atLeast, allowed⟩, rfl, rfl⟩
      exact ⟨wait, _, [], Course.answers_draw.2 ⟨atLeast, by omega, rfl⟩, .done .., rfl⟩
  case neg =>
    rw [if_neg wide, if_neg wide]
    refine Script.lasts_done.trans ⟨?_, ?_⟩
    · rintro ⟨rfl, rfl, rfl⟩
      exact ⟨⟨Nat.le_refl _, .inr ⟨by omega, rfl⟩⟩, rfl, rfl⟩
    · rintro ⟨⟨_, allowed⟩, rfl, rfl⟩
      exact ⟨rfl, rfl, by omega⟩

/-- What a run shows before its first check. -/
def beginning (settings : SchedulerSettings) (worker : Worker) (start wait : Nat) : List (TimedAct Worker) :=
  .changed start worker worker :: ((settings.draws wait).map
    (.asked start (.draw settings.minTableWait (settings.maxTableWait - 1)) · start) ++
      [.asked start .clock start start])

theorem drawsIn_beginning (worker : Worker) (wait : Nat) (later : List (TimedAct Worker)) :
    drawsIn (beginning settings worker start wait ++ later) = settings.draws wait ++ drawsIn later := by
  unfold beginning SchedulerSettings.draws
  split <;> rfl

theorem checksIn_beginning (worker : Worker) (wait : Nat) (later : List (TimedAct Worker)) :
    checksIn (beginning settings worker start wait ++ later) = checksIn later := by
  unfold beginning SchedulerSettings.draws
  split <;> rfl

theorem napsIn_beginning (worker : Worker) (wait : Nat) (later : List (TimedAct Worker)) :
    napsIn (beginning settings worker start wait ++ later) = napsIn later := by
  unfold beginning SchedulerSettings.draws
  split <;> rfl

/-- A run chooses a wait that is allowed and watches the table for so long. -/
theorem lasts_shouldFillTable
    (settled : ∀ instant worker, course.states instant worker → worker.settings = settings)
    (window : settings.minTableWait ≤ settings.maxTableWait) :
    shouldFillTable.Lasts course start acts finish result ↔
      ∃ wait worker later, settings.AllowsWait wait ∧ course.states start worker ∧
        acts = beginning settings worker start wait ++ later ∧
        (watchTable start wait settings.tableCheckInterval
          (wait / settings.tableCheckInterval + 1)).Lasts course start later finish result := by
  refine Script.lasts_look.trans ⟨?_, ?_⟩
  · rintro ⟨worker, rest, here, afterLook, rfl⟩
    rw [settled start worker here] at afterLook
    obtain ⟨_, _, wait, _, chosen, afterwards, rfl⟩ := Script.lasts_bind.1 afterLook
    obtain ⟨allowed, rfl, rfl⟩ := (lasts_tableWait window).1 chosen
    obtain ⟨_, _, later, answers, watched, rfl⟩ := Script.lasts_query.1 afterwards
    obtain ⟨rfl, rfl⟩ := Course.answers_clock.1 answers
    exact ⟨wait, worker, later, allowed, here, by simp [beginning], watched⟩
  · rintro ⟨wait, worker, later, allowed, here, rfl, watched⟩
    refine ⟨worker, _, here, ?_, rfl⟩
    rw [settled start worker here]
    exact Script.lasts_bind.2 ⟨_, start, wait, _, (lasts_tableWait window).2 ⟨allowed, rfl, rfl⟩,
      Script.lasts_query.2 ⟨start, start, later, Course.answers_clock.2 ⟨rfl, rfl⟩, watched, rfl⟩,
      List.append_assoc ..⟩

/-- While the table is checked at once and without fail, a worker waits for some time that the bounds allow,
and for each of these times it may be told to stop at any instant and comes to an end. The table is checked
at the beginning and after every interval. The last check is the first one after the wait, within an
interval: if the table is always empty, it answers that the worker should fill it. A check that finds the
table filled answers that it should not. If the worker is told to stop before or during one of the naps
between the checks, then this nap is cut and ends the run. -/
theorem shouldFillTable_decides {stop : Option Nat}
    (settled : ∀ instant worker, course.states instant worker → worker.settings = settings)
    (window : settings.minTableWait ≤ settings.maxTableWait) (positive : 0 < settings.tableCheckInterval)
    (checks : ChecksAtOnce course empty) (stops : course.Stops stopping stop) (start : Nat) :
    let interval := settings.tableCheckInterval
    let instant (i : Nat) := start + i * interval
    (∀ wait, settings.AllowsWait wait → ∃ acts finish result,
      shouldFillTable.Lasts course start acts finish result ∧ drawsIn acts = settings.draws wait) ∧
    ∀ acts finish result, shouldFillTable.Lasts course start acts finish result →
      ∃ wait last, settings.AllowsWait wait ∧ drawsIn acts = settings.draws wait ∧
        last = wait / interval + 1 ∧ wait < last * interval ∧ last * interval ≤ wait + interval ∧
        ((∀ signal ∈ stop, instant last < signal) → (∀ i ≤ last, empty (instant i) = true) →
          checksIn acts = (List.range (last + 1)).map (fun i => (instant i, .ok true)) ∧
            finish = instant last ∧ result = .ok true) ∧
        (∀ i ≤ last, (∀ signal ∈ stop, instant i < signal) → (∀ j < i, empty (instant j) = true) →
          empty (instant i) = false →
            checksIn acts = (List.range i).map (fun j => (instant j, .ok true)) ++ [(instant i, .ok false)] ∧
              finish = instant i ∧ result = .ok false) ∧
        ∀ nap ∈ napsIn acts,
          (∀ signal ∈ stop, signal < nap.since + interval → nap.complete = false) ∧
          (nap.complete = false → finish = nap.till ∧ result = .error .shuttingDown ∧
            ∃ signal ∈ stop, signal ≤ nap.since + interval ∧ nap.till = max nap.since signal) := by
  intro interval instant
  have begins : start + 0 * interval = start := by rw [Nat.zero_mul, Nat.add_zero]
  have watched {wait finish : Nat} {later : List (TimedAct Worker)} {result : Except WorkerError Bool}
      (lasts : (watchTable start wait interval (wait / interval + 1)).Lasts course start later finish
        result) : ∃ round cut,
          Watches course empty start interval 0 (wait / interval + 1) round cut later finish result := by
    refine watches_of_lasts checks positive (Nat.zero_add (wait / interval + 1)) ?_
    rwa [begins]
  refine ⟨fun wait allowed => ?_, fun acts finish result running => ?_⟩
  · obtain ⟨later, finish, result, lasts⟩ :=
      exists_watch start checks positive (Nat.zero_add (wait / interval + 1))
    rw [begins] at lasts
    obtain ⟨worker, here⟩ := course.inhabited start
    obtain ⟨_, _, watches⟩ := watched lasts
    refine ⟨_, finish, result,
      (lasts_shouldFillTable settled window).2 ⟨wait, worker, later, allowed, here, rfl, lasts⟩, ?_⟩
    rw [drawsIn_beginning, watches.draws, List.append_nil]
  · obtain ⟨wait, worker, later, allowed, here, rfl, lasts⟩ :=
      (lasts_shouldFillTable settled window).1 running
    obtain ⟨round, cut, watches⟩ := watched lasts
    rw [drawsIn_beginning, checksIn_beginning, napsIn_beginning, watches.draws, List.append_nil]
    refine ⟨wait, _, allowed, rfl, rfl, ?above, ?within, watches.unfilled stops,
      fun i within => watches.filled stops within, fun nap mem => ?told⟩
    case above =>
      rw [Nat.mul_comm]
      exact Nat.lt_mul_div_succ wait positive
    case within =>
      rw [Nat.succ_mul]
      exact Nat.add_le_add_right (Nat.div_mul_le_self wait interval) interval
    case told =>
      obtain ⟨cuts, cutOnly⟩ := watches.heeds stops mem
      refine ⟨cuts, fun isCut => ?_⟩
      obtain ⟨ended, answer⟩ := (watches.of_nap mem).2 isCut
      exact ⟨ended, answer, cutOnly isCut⟩

/-- A worker that waits for two seconds and checks the table every second. -/
def patientWorker : Worker :=
  ({ workerId := "w1", region := "r", account := "c",
     scheduler := { minTableWait := 2000, maxTableWait := 2000, tableCheckInterval := 1000 } } :
    WorkerSetup).worker

/-- Nothing happens but that the table is filled at an instant. -/
def filledAt (filled : Nat) : Course Worker WorkerJob where
  states _ worker := worker = patientWorker
  inhabited _ := ⟨_, rfl⟩
  serves since query reply till := till = since ∧
    (⟨query, reply⟩ : (query : Query) × query.Reply) = ⟨.store .isEmpty, .ok (decide (since < filled))⟩
  gathers _ _ _ := False

theorem filledAt_checks (filled : Nat) :
    ChecksAtOnce (filledAt filled) fun instant => decide (instant < filled) := by
  intro since reply till
  constructor
  · rintro ⟨rfl, same⟩
    exact ⟨eq_of_heq (Sigma.mk.inj same).2, rfl⟩
  · rintro ⟨rfl, rfl⟩
    exact ⟨rfl, rfl⟩

theorem filledAt_stops (filled : Nat) : (filledAt filled).Stops stopping none where
  before _ _ here stopped := by
    cases here
    cases stopped
  signalled _ told := nomatch told
  after _ told := nomatch told

/-- The table is filled after the check at the end of the wait, so it is found at the last check. -/
theorem shouldFillTable_decides_of_filled : ∃ acts,
    shouldFillTable.Lasts (filledAt 2500) 0 acts 3000 (.ok false) ∧
      checksIn acts = [(0, .ok true), (1000, .ok true), (2000, .ok true), (3000, .ok false)] := by
  have settled (instant : Nat) (worker : Worker) (here : (filledAt 2500).states instant worker) :
      worker.settings = patientWorker.settings := congrArg Worker.settings here
  obtain ⟨runs, decides⟩ := shouldFillTable_decides settled (by decide) (by decide) (filledAt_checks 2500)
    (filledAt_stops 2500) 0
  obtain ⟨acts, finish, result, lasts, _⟩ := runs 2000 ⟨by decide, .inr ⟨rfl, rfl⟩⟩
  obtain ⟨wait, last, allowed, _, rfl, _, _, _, filled, _⟩ := decides acts finish result lasts
  obtain rfl : wait = 2000 := allowed.2.elim
    (fun below => absurd below (Nat.not_lt.2 allowed.1)) (fun only => only.2)
  obtain ⟨checks, rfl, rfl⟩ := filled 3 (by decide) (fun _ told => nomatch told) (by decide) (by decide)
  exact ⟨acts, lasts, checks⟩

end Worker

end LeaseFleet
