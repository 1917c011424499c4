import LeaseFleet.Assignment.Moves

/-!
# Moves amid the calls of others

While a worker carries out moves, others call the store between any two of its writes, and any of its
writes may fail. `Script.Amid` says what its own calls find then, are answered and leave behind. Each
move is tried once, in order, and it is applied exactly if its write does not fail and finds the lease
under the counter of the snapshot (`executeMoves_amid_others`).

A write that was applied leaves a counter beyond that of the snapshot, and there it stays until the lease
is created anew or updated from the last word (`Beyond.performAll`). So two moves of a lease under one
counter are both applied only if the lease was set back in between (`setBack_of_applied`), which others can
do (`moved_twice_after_recreation`).
-/

namespace LeaseFleet

/-! ## Calls amid those of others -/

namespace LeaseTable

/-- The table after calls, whatever they are answered. -/
def performAll (table : LeaseTable) (calls : List StoreCall) : LeaseTable :=
  calls.foldl (fun table call => (table.performIn .words call).2) table

/-- A call is carried out, or it fails and nothing changes. -/
def Answers (found : LeaseTable) (call : StoreCall) (reply : call.Reply) (left : LeaseTable)
    (capacity : Capacity := .unlimited) : Prop :=
  found.performIn capacity call = (reply, left) ∨ ∃ error, reply = call.failed error ∧ left = found

end LeaseTable

/-- A call amid those of others. -/
structure Turn where
  /-- What others have called since the turn before. -/
  others : List StoreCall
  call : StoreCall
  found : LeaseTable
  reply : call.Reply
  left : LeaseTable

namespace Turn

/-- Whether the call was an update that was applied. -/
def applied (turn : Turn) : Bool := (turn.call.applied? turn.reply).isSome

/-- The error with which the call has failed, if it has. -/
def error? (turn : Turn) : Option StoreError :=
  match turn.reply with
  | .error error => some error
  | .ok _ => none

/-- The turn in which a call is carried out after those of others. -/
def carriedOut (table : LeaseTable) (others : List StoreCall) (call : StoreCall) : Turn where
  others := others
  call := call
  found := table.performAll others
  reply := ((table.performAll others).performIn .words call).1
  left := ((table.performAll others).performIn .words call).2

/-- The turn in which a call fails. -/
def failed (table : LeaseTable) (others : List StoreCall) (call : StoreCall) (error : StoreError) : Turn where
  others := others
  call := call
  found := table.performAll others
  reply := call.failed error
  left := table.performAll others

end Turn

/-- Turns one after another, with only the calls of others in between. -/
inductive Turns : LeaseTable → List Turn → Prop
  | nil (table : LeaseTable) : Turns table []
  | cons {table : LeaseTable} {turn : Turn} {later : List Turn}
      (finds : turn.found = table.performAll turn.others)
      (answers : turn.found.Answers turn.call turn.reply turn.left .words) (rest : Turns turn.left later) :
      Turns table (turn :: later)

namespace Script

variable {σ Job α β : Type}

/-- The turns that a script takes from a table to its end, and its value. -/
inductive Amid : Script σ Job α → LeaseTable → List Turn → α → Prop
  | done (value : α) (table : LeaseTable) : Amid (.done value) table [] value
  | call {table left : LeaseTable} {others : List StoreCall} {call : StoreCall} {reply : call.Reply}
      {next : call.Reply → Script σ Job α} {later : List Turn} {value : α}
      (answers : (table.performAll others).Answers call reply left .words)
      (rest : Amid (next reply) left later value) :
      Amid (.ask (.store call) next) table
        ({ others, call, found := table.performAll others, reply, left } :: later) value
  | ask {table : LeaseTable} {query : Query} {next : query.Reply → Script σ Job α} {turns : List Turn}
      {value : α} (other : ∀ call, query ≠ .store call) (reply : query.Reply)
      (rest : Amid (next reply) table turns value) : Amid (.ask query next) table turns value
  | step {table : LeaseTable} {ready : σ → Bool} {change : σ → σ} {next : σ → Script σ Job α}
      {turns : List Turn} {value : α} (state : σ) (permitted : ready state = true)
      (rest : Amid (next state) table turns value) : Amid (.step ready change next) table turns value
  | sleep {table : LeaseTable} {millis : Nat} {stopped : σ → Bool} {next : Bool → Script σ Job α}
      {turns : List Turn} {value : α} (complete : Bool) (rest : Amid (next complete) table turns value) :
      Amid (.sleep millis stopped next) table turns value
  | spawn {table : LeaseTable} {job : Job} {next : Script σ Job α} {turns : List Turn} {value : α}
      (rest : Amid next table turns value) : Amid (.spawn job next) table turns value
  | gather {table : LeaseTable} {jobs : List Job} {next : Script σ Job α} {turns : List Turn} {value : α}
      (rest : Amid next table turns value) : Amid (.gather jobs next) table turns value

variable {table : LeaseTable} {turns : List Turn}

theorem amid_done {value wanted : α} :
    (done value : Script σ Job α).Amid table turns wanted ↔ turns = [] ∧ wanted = value :=
  ⟨fun run => by cases run; exact ⟨rfl, rfl⟩, by rintro ⟨rfl, rfl⟩; exact .done ..⟩

/-- What follows a script takes no turn and only adjusts its value. -/
theorem amid_bind_quiet {script : Script σ Job α} {following : α → Script σ Job β} (adjust : α → β)
    {wanted : β} (quiet : ∀ {value table turns wanted},
      (following value).Amid table turns wanted ↔ turns = [] ∧ wanted = adjust value) :
    (script.bind following).Amid table turns wanted ↔
      ∃ value, script.Amid table turns value ∧ wanted = adjust value := by
  refine ⟨fun run => ?_, ?_⟩
  · induction script generalizing table turns with
    | done value =>
      obtain ⟨rfl, rfl⟩ := quiet.1 run
      exact ⟨value, .done .., rfl⟩
    | ask query next ih =>
      cases run with
      | call answers rest =>
        obtain ⟨value, rest, same⟩ := ih _ rest
        exact ⟨value, .call answers rest, same⟩
      | ask other reply rest =>
        obtain ⟨value, rest, same⟩ := ih _ rest
        exact ⟨value, .ask other reply rest, same⟩
    | step ready change next ih =>
      cases run with
      | step state permitted rest =>
        obtain ⟨value, rest, same⟩ := ih _ rest
        exact ⟨value, .step state permitted rest, same⟩
    | sleep millis stopped next ih =>
      cases run with
      | sleep complete rest =>
        obtain ⟨value, rest, same⟩ := ih _ rest
        exact ⟨value, .sleep complete rest, same⟩
    | spawn job next ih =>
      cases run with
      | spawn rest =>
        obtain ⟨value, rest, same⟩ := ih rest
        exact ⟨value, .spawn rest, same⟩
    | gather jobs next ih =>
      cases run with
      | gather rest =>
        obtain ⟨value, rest, same⟩ := ih rest
        exact ⟨value, .gather rest, same⟩
  · rintro ⟨value, run, rfl⟩
    induction run with
    | done value table => exact quiet.2 ⟨rfl, rfl⟩
    | call answers _ ih => exact .call answers ih
    | ask other reply _ ih => exact .ask other reply ih
    | step state permitted _ ih => exact .step state permitted ih
    | sleep complete _ ih => exact .sleep complete ih
    | spawn _ ih => exact .spawn ih
    | gather _ ih => exact .gather ih

/-- The value of a script is adjusted at its end. -/
theorem amid_bind_done {script : Script σ Job α} {adjust : α → β} {wanted : β} :
    (script.bind fun value => done (adjust value)).Amid table turns wanted ↔
      ∃ value, script.Amid table turns value ∧ wanted = adjust value :=
  amid_bind_quiet adjust amid_done

theorem amid_record {measurement : Measurement} {next : Unit → Script σ Job α} {value : α} :
    ((Script.record measurement).bind next).Amid table turns value ↔ (next ()).Amid table turns value := by
  refine ⟨fun run => ?_, fun rest => .ask (fun _ => nofun) () rest⟩
  cases run with
  | ask _ _ rest => exact rest

/-- A store call takes the first turn. -/
theorem amid_call {call : StoreCall} {next : call.Reply → Script σ Job α} {value : α} :
    ((Script.query (.store call)).bind next).Amid table turns value ↔
      ∃ others reply left later, (table.performAll others).Answers call reply left .words ∧
        (next reply).Amid left later value ∧
        turns = { others, call, found := table.performAll others, reply, left } :: later := by
  refine ⟨fun run => ?_, ?_⟩
  · cases run with
    | call answers rest => exact ⟨_, _, _, _, answers, rest, rfl⟩
    | ask other => exact absurd rfl (other _)
  · rintro ⟨others, reply, left, later, answers, rest, rfl⟩
    exact .call answers rest

end Script

/-! ## The moves -/

section

variable {σ Job : Type} {table : LeaseTable} {turns : List Turn} {applied : List LeaseMove}

/-- What a worker makes of the answer to the write of a move. -/
def LeaseMove.afterWrite (move : LeaseMove) (others : Script σ Job (List LeaseMove)) :
    move.write.Reply → Script σ Job (List LeaseMove)
  | .ok (.updated _) =>
    (Script.count .movesApplied 1).bind fun _ => others.bind fun later => .done (move :: later)
  | .ok _ => (Script.count .moveConflicts 1).bind fun _ => others
  | .error _ => others

theorem executeMoves_cons (move : LeaseMove) (rest : List LeaseMove) :
    (executeMoves (move :: rest) : Script σ Job _) =
      (Script.query (.store move.write)).bind (move.afterWrite (executeMoves rest)) :=
  congrArg (Script.bind _) (funext fun reply => by
    match reply with
    | .ok (.updated _) => rfl
    | .ok .versionConflict => rfl
    | .ok .notFound => rfl
    | .error _ => rfl)

/-- The move counts if it was applied, and the others are tried in any case. -/
theorem amid_afterWrite {move : LeaseMove} {others : Script σ Job (List LeaseMove)}
    {reply : move.write.Reply} :
    (move.afterWrite others reply).Amid table turns applied ↔
      ∃ later, others.Amid table turns later ∧
        applied = if (move.write.applied? reply).isSome then move :: later else later := by
  match reply with
  | .ok (.updated _) => exact Script.amid_record.trans Script.amid_bind_done
  | .ok .versionConflict => exact Script.amid_record.trans (by simp [LeaseMove.write, StoreCall.applied?])
  | .ok .notFound => exact Script.amid_record.trans (by simp [LeaseMove.write, StoreCall.applied?])
  | .error _ => simp [LeaseMove.afterWrite, LeaseMove.write, StoreCall.applied?]

/-- The moves whose turns say that they were applied. -/
def appliedMoves (moves : List LeaseMove) (turns : List Turn) : List LeaseMove :=
  ((moves.zip turns).filter fun (_, turn) => turn.applied).map Prod.fst

theorem appliedMoves_cons (move : LeaseMove) (moves : List LeaseMove) (turn : Turn)
    (turns : List Turn) : appliedMoves (move :: moves) (turn :: turns) =
      if turn.applied then move :: appliedMoves moves turns else appliedMoves moves turns := by
  cases applied : turn.applied <;> simp [appliedMoves, applied]

/-- The turns of moves are those in which each of their writes is called once, in order, and what is
returned are the moves that were applied. -/
theorem amid_executeMoves {moves : List LeaseMove} :
    (executeMoves moves : Script σ Job _).Amid table turns applied ↔
      Turns table turns ∧ turns.map Turn.call = moves.map LeaseMove.write ∧
        applied = appliedMoves moves turns := by
  induction moves generalizing table turns applied with
  | nil =>
    refine Script.amid_done.trans ⟨?_, ?_⟩
    · rintro ⟨rfl, rfl⟩
      exact ⟨.nil table, rfl, rfl⟩
    · rintro ⟨_, called, rfl⟩
      exact ⟨List.map_eq_nil_iff.1 called, rfl⟩
  | cons move rest ih =>
    rw [executeMoves_cons, Script.amid_call]
    constructor
    · rintro ⟨others, reply, left, later, answers, onward, rfl⟩
      obtain ⟨others, run, rfl⟩ := amid_afterWrite.1 onward
      obtain ⟨lawful, called, rfl⟩ := ih.1 run
      refine ⟨.cons rfl answers lawful, by simp [called], ?_⟩
      rw [appliedMoves_cons]
      rfl
    · rintro ⟨lawful, called, rfl⟩
      cases lawful with
      | nil => simp at called
      | @cons _ turn later finds answers lawful =>
        obtain ⟨others, call, found, reply, left⟩ := turn
        obtain ⟨sameCall, calledLater⟩ := List.cons.inj called
        dsimp only at sameCall finds answers lawful
        subst sameCall finds
        have run := ih.2 ⟨lawful, calledLater, rfl⟩
        refine ⟨others, reply, left, later, answers, amid_afterWrite.2 ⟨_, run, ?_⟩, rfl⟩
        exact appliedMoves_cons ..

end

/-- The lease of the snapshot as the move changes it: owned by the target and under the next counter, with
one more switch of owner if it had another one. -/
def LeaseMove.moved (move : LeaseMove) : Lease :=
  { move.lease with
    owner := some move.target
    counter := move.lease.counter + 1
    ownerSwitches := move.lease.ownerSwitches + if move.lease.owner = some move.target then 0 else 1 }

theorem LeaseMove.moved_eq (move : LeaseMove) :
    { move.lease.transferredTo (some move.target) with counter := move.lease.counter + 1 } = move.moved := by
  simp only [moved, Lease.transferredTo]
  split <;> rfl

/-- The effect of a move at its turn: it is applied if its write does not fail and finds the lease under
the counter of the snapshot. Then the changed lease of the snapshot is stored, its numbers as words.
Otherwise nothing changes, and no other lease does in any case. -/
structure LeaseMove.Effect (move : LeaseMove) (turn : Turn) : Prop where
  applied_iff : turn.applied = true ↔ turn.error? = none ∧
    ∃ stored, turn.found.get? move.lease.leaseKey = some stored ∧ stored.counter = move.lease.counter
  storesWords : turn.applied = true → turn.left = turn.found.put move.moved.inWords
  stores : turn.applied = true → move.moved.Fits → turn.left = turn.found.put move.moved
  refused : turn.applied = false → turn.left = turn.found
  others : ∀ leaseKey, leaseKey ≠ move.lease.leaseKey →
    turn.left.get? leaseKey = turn.found.get? leaseKey

theorem effect_of_answers {move : LeaseMove} {turn : Turn} (isWrite : turn.call = move.write)
    (answers : turn.found.Answers turn.call turn.reply turn.left .words) : move.Effect turn := by
  obtain ⟨others, call, found, reply, left⟩ := turn
  dsimp only at isWrite answers
  subst isWrite
  obtain performed | ⟨error, rfl, rfl⟩ := answers
  · let proposal := move.lease.transferredTo (some move.target)
    obtain ⟨rfl, rfl⟩ : .ok (found.updateIn .words proposal move.lease.counter).1 = reply ∧
        (found.updateIn .words proposal move.lease.counter).2 = left := Prod.mk.inj performed
    have applied :
        (move.write.applied? (.ok (found.updateIn .words proposal move.lease.counter).1)).isSome = true ↔
          ∃ written, (found.updateIn .words proposal move.lease.counter).1 = .updated written := by
      cases outcome : (found.updateIn .words proposal move.lease.counter).1 <;>
        simp [LeaseMove.write, StoreCall.applied?]
    have stores (isApplied : (move.write.applied?
        (.ok (found.updateIn .words proposal move.lease.counter).1)).isSome = true) :
        (found.updateIn .words proposal move.lease.counter).2 = found.put move.moved.inWords := by
      obtain ⟨written, updated⟩ := applied.1 isApplied
      obtain ⟨_, rfl⟩ := LeaseTable.updateIn_updated.1 updated
      refine (LeaseTable.updateIn_table updated).trans (congrArg found.put ?_)
      exact congrArg Lease.inWords move.moved_eq
    refine ⟨?applied_iff, stores, fun isApplied fits => ?stores, fun refused => ?refused,
      fun leaseKey other => ?others⟩
    case applied_iff =>
      refine applied.trans ?_
      simp only [LeaseTable.updateIn_updated, Turn.error?, true_and]
      exact ⟨fun ⟨_, current, _⟩ => current, fun current => ⟨_, current, rfl⟩⟩
    case stores => exact (stores isApplied).trans (congrArg found.put (Lease.inWords_of_fits fits))
    case refused =>
      refine LeaseTable.updateIn_refused fun written updated => ?_
      exact Bool.false_ne_true (refused.symm.trans (applied.2 ⟨written, updated⟩))
    case others => exact LeaseTable.get?_updateIn_of_ne other
  · refine ⟨?_, nofun, nofun, fun _ => rfl, fun _ _ => rfl⟩
    exact ⟨nofun, fun ⟨notFailed, _⟩ => nomatch notFailed⟩

/-! ## No lease is moved twice -/

/-- Whether a call with this reply has set a lease back to the counter, if not further: it has created the
lease anew, and not beyond the counter, or it has updated the lease from the last word. -/
def StoreCall.SetsBack (leaseKey : String) (counter : Nat) : (call : StoreCall) → call.Reply → Prop
  | create lease, .ok isNew => isNew = true ∧ lease.leaseKey = leaseKey ∧ lease.counter ≤ counter
  | update lease expected, .ok (.updated _) =>
    lease.leaseKey = leaseKey ∧ Decimal.wordLimit ≤ expected + 1
  | _, _ => False

/-- Whether one of the calls sets the lease back. -/
def LeaseTable.SetBackBy (leaseKey : String) (counter : Nat) (table : LeaseTable) : List StoreCall → Prop
  | [] => False
  | call :: rest =>
    call.SetsBack leaseKey counter (table.performIn .words call).1 ∨
      (table.performIn .words call).2.SetBackBy leaseKey counter rest

/-- Whether the lease was set back after the turn with the number, or by it, and before the next turn. -/
def SetBackAfter (leaseKey : String) (counter : Nat) (turns : List Turn) (number : Nat) : Prop :=
  ∃ turn next, turns[number]? = some turn ∧ turns[number + 1]? = some next ∧
    (turn.call.SetsBack leaseKey counter turn.reply ∨ turn.left.SetBackBy leaseKey counter next.others)

/-- The lease has gone beyond a counter, or is not there. -/
def LeaseTable.Beyond (table : LeaseTable) (leaseKey : String) (counter : Nat) : Prop :=
  ∀ stored, table.get? leaseKey = some stored → counter < stored.counter

namespace LeaseTable.Beyond

variable {table : LeaseTable} {leaseKey : String} {counter : Nat}

theorem put {lease : Lease} (beyond : table.Beyond leaseKey counter)
    (later : lease.leaseKey = leaseKey → counter < lease.counter) :
    (table.put lease).Beyond leaseKey counter := by
  intro stored found
  rcases SortedMap.get?_insert_eq_some_iff.1 found with ⟨rfl, rfl⟩ | ⟨_, found⟩
  · exact later rfl
  · exact beyond stored found

theorem performIn {call : StoreCall} (beyond : table.Beyond leaseKey counter)
    (kept : ¬call.SetsBack leaseKey counter (table.performIn .words call).1) :
    (table.performIn .words call).2.Beyond leaseKey counter := by
  cases call with
  | list | isEmpty => exact beyond
  | delete key => exact fun stored found => beyond stored (SortedMap.get?_erase_eq_some_iff.1 found).2
  | create lease =>
    obtain ⟨same, _⟩ | ⟨_, created⟩ := table.create_cases lease
    · exact fun stored found => beyond stored (same ▸ found)
    · have replied : (table.performIn .words (.create lease)).1 = .ok true := congrArg Prod.fst created
      have after : (table.performIn .words (.create lease)).2 = table.put lease := congrArg Prod.snd created
      rw [replied] at kept
      exact after ▸ beyond.put fun same => Nat.lt_of_not_le fun le => kept ⟨rfl, same, le⟩
  | update lease expected =>
    cases outcome : (table.updateIn .words lease expected).1 with
    | updated written =>
      obtain ⟨⟨stored, found, current⟩, rfl⟩ := updateIn_updated.1 outcome
      have after : (table.performIn .words (.update lease expected)).2 = table.put _ := updateIn_table outcome
      refine after ▸ beyond.put fun same => ?_
      rw [Capacity.keep_leaseKey] at same
      have word : expected + 1 < Decimal.wordLimit := Nat.lt_of_not_le fun last => by
        simp only [LeaseTable.performIn, outcome] at kept
        exact kept ⟨same, last⟩
      have sofar := beyond stored (same ▸ found)
      show counter < (expected + 1) % Decimal.wordLimit
      rw [Nat.mod_eq_of_lt word]
      omega
    | versionConflict | notFound =>
      have after : (table.performIn .words (.update lease expected)).2 = table :=
        updateIn_refused (by simp [outcome])
      rwa [after]

theorem performAll {calls : List StoreCall} (beyond : table.Beyond leaseKey counter)
    (kept : ¬table.SetBackBy leaseKey counter calls) : (table.performAll calls).Beyond leaseKey counter := by
  induction calls generalizing table with
  | nil => exact beyond
  | cons call rest ih =>
    obtain ⟨first, others⟩ := not_or.1 kept
    exact ih (beyond.performIn first) others

theorem answers {call : StoreCall} {reply : call.Reply} {left : LeaseTable}
    (beyond : table.Beyond leaseKey counter) (kept : ¬call.SetsBack leaseKey counter reply)
    (answers : table.Answers call reply left .words) : left.Beyond leaseKey counter := by
  obtain performed | ⟨_, _, rfl⟩ := answers
  · obtain ⟨rfl, rfl⟩ := Prod.mk.inj performed
    exact beyond.performIn kept
  · exact beyond

end LeaseTable.Beyond

section

variable {table : LeaseTable} {moves : List LeaseMove} {turns : List Turn} {leaseKey : String}
  {counter number : Nat} {turn next : Turn}

theorem Turns.answers (lawful : Turns table turns) (here : turns[number]? = some turn) :
    turn.found.Answers turn.call turn.reply turn.left .words := by
  induction lawful generalizing number with
  | nil => simp at here
  | cons _ answers _ ih =>
    cases number with
    | zero => exact Option.some.inj here ▸ answers
    | succ number => exact ih here

/-- A turn finds what others have made of the table that the turn before has left. -/
theorem Turns.finds_next (lawful : Turns table turns) (here : turns[number]? = some turn)
    (there : turns[number + 1]? = some next) : next.found = turn.left.performAll next.others := by
  induction lawful generalizing number with
  | nil => simp at here
  | cons _ _ rest ih =>
    cases number with
    | zero =>
      cases rest with
      | nil => simp at there
      | cons finds _ _ =>
        obtain rfl := Option.some.inj here
        obtain rfl := Option.some.inj there
        exact finds
    | succ number => exact ih here there

/-- What is beyond a counter stays there until it is set back. -/
theorem Turns.found_beyond (lawful : Turns table turns) {first last : Turn} {i j : Nat} (before : i < j)
    (isFirst : turns[i]? = some first) (isLast : turns[j]? = some last)
    (beyond : ¬first.call.SetsBack leaseKey counter first.reply → first.left.Beyond leaseKey counter)
    (kept : ∀ k, i ≤ k → k < j → ¬SetBackAfter leaseKey counter turns k) :
    last.found.Beyond leaseKey counter := by
  obtain ⟨distance, rfl⟩ := Nat.exists_eq_add_of_lt before
  induction distance generalizing last with
  | zero =>
    obtain ⟨own, others⟩ : _ ∧ ¬first.left.SetBackBy leaseKey counter last.others :=
      not_or.1 fun back => kept i (Nat.le_refl i) (Nat.lt_succ_self i) ⟨first, last, isFirst, isLast, back⟩
    exact lawful.finds_next isFirst isLast ▸ (beyond own).performAll others
  | succ distance ih =>
    have known : i + distance + 1 < turns.length :=
      Nat.lt_of_succ_lt (List.getElem?_eq_some_iff.1 isLast).1
    have isTurn := List.getElem?_eq_getElem known
    have found := ih (by omega) isTurn fun k above below => kept k above (by omega)
    obtain ⟨own, others⟩ := not_or.1 fun back =>
      kept (i + distance + 1) (by omega) (by omega) ⟨_, last, isTurn, isLast, back⟩
    exact lawful.finds_next isTurn isLast ▸ (found.answers own (lawful.answers isTurn)).performAll others

end

theorem appliedMoves_sublist (moves : List LeaseMove) (turns : List Turn) :
    (appliedMoves moves turns).Sublist moves := by
  induction moves generalizing turns with
  | nil => exact .slnil
  | cons move moves ih =>
    obtain _ | ⟨turn, turns⟩ := turns
    · exact List.nil_sublist _
    · rw [appliedMoves_cons]
      split
      · exact (ih turns).cons_cons move
      · exact (ih turns).cons move

theorem call_of_tried {moves : List LeaseMove} {turns : List Turn} {number : Nat} {move : LeaseMove}
    {turn : Turn} (tried : turns.map Turn.call = moves.map LeaseMove.write)
    (isMove : moves[number]? = some move) (isTurn : turns[number]? = some turn) : turn.call = move.write := by
  have called := congrArg (·[number]?) tried
  simpa [isMove, isTurn] using called

theorem effect_of_turns {table : LeaseTable} {moves : List LeaseMove} {turns : List Turn}
    (lawful : Turns table turns) (tried : turns.map Turn.call = moves.map LeaseMove.write)
    {number : Nat} {move : LeaseMove} {turn : Turn} (isMove : moves[number]? = some move)
    (isTurn : turns[number]? = some turn) : move.Effect turn :=
  effect_of_answers (call_of_tried tried isMove isTurn) (lawful.answers isTurn)

/-- The write of a move from the last word sets the lease back. -/
theorem setsBack_of_last {move : LeaseMove} {turn : Turn} (isWrite : turn.call = move.write)
    (applied : turn.applied = true) (last : Decimal.wordLimit ≤ move.lease.counter + 1) :
    turn.call.SetsBack move.lease.leaseKey move.lease.counter turn.reply := by
  obtain ⟨others, call, found, reply, left⟩ := turn
  dsimp only at isWrite
  subst isWrite
  match reply with
  | .ok (.updated _) => exact ⟨rfl, last⟩
  | .ok .versionConflict | .ok .notFound | .error _ => cases applied

/-- If two moves of a lease under one counter are both applied, the lease was set back in between. -/
theorem setBack_of_applied {table : LeaseTable} {moves : List LeaseMove} {turns : List Turn}
    (lawful : Turns table turns) (tried : turns.map Turn.call = moves.map LeaseMove.write)
    {i j : Nat} {one other : LeaseMove} {first last : Turn} (before : i < j)
    (isOne : moves[i]? = some one) (isFirst : turns[i]? = some first)
    (isOther : moves[j]? = some other) (isLast : turns[j]? = some last)
    (sameKey : other.lease.leaseKey = one.lease.leaseKey)
    (sameCounter : other.lease.counter = one.lease.counter)
    (applied : first.applied = true) (again : last.applied = true) :
    ∃ k, i ≤ k ∧ k < j ∧ SetBackAfter one.lease.leaseKey one.lease.counter turns k := by
  refine Classical.byContradiction fun never => ?_
  have kept (k : Nat) (above : i ≤ k) (below : k < j) :
      ¬SetBackAfter one.lease.leaseKey one.lease.counter turns k :=
    fun back => never ⟨k, above, below, back⟩
  have firstEffect := effect_of_turns lawful tried isOne isFirst
  have lastEffect := effect_of_turns lawful tried isOther isLast
  -- the write of the first move has left the lease beyond the counter
  have found := lawful.found_beyond before isFirst isLast (fun own => ?left) kept
  case left =>
    have word : one.lease.counter + 1 < Decimal.wordLimit := Nat.lt_of_not_le fun last =>
      own (setsBack_of_last (call_of_tried tried isOne isFirst) applied last)
    rw [firstEffect.storesWords applied]
    intro stored found
    obtain ⟨_, rfl⟩ | ⟨elsewhere, _⟩ := SortedMap.get?_insert_eq_some_iff.1 found
    · show one.lease.counter < (one.lease.counter + 1) % Decimal.wordLimit
      rw [Nat.mod_eq_of_lt word]
      exact Nat.lt_succ_self _
    · exact absurd rfl elsewhere
  obtain ⟨stored, isStored, current⟩ := (lastEffect.applied_iff.1 again).2
  exact Nat.ne_of_gt (found stored (sameKey ▸ isStored)) (current.trans sameCounter)

/-- Whatever others call before each of the writes of moves, and whichever of the writes fail, there are
turns of that kind. -/
theorem exists_turns (table : LeaseTable) (moves : List LeaseMove)
    (pattern : List (List StoreCall × Option StoreError)) (length : pattern.length = moves.length) :
    ∃ turns, Turns table turns ∧ turns.map Turn.call = moves.map LeaseMove.write ∧
      turns.map (fun turn => (turn.others, turn.error?)) = pattern := by
  induction moves generalizing table pattern with
  | nil => exact ⟨[], .nil table, rfl, (List.length_eq_zero_iff.1 length).symm⟩
  | cons move moves ih =>
    obtain _ | ⟨⟨others, error?⟩, pattern⟩ := pattern
    · simp at length
    obtain ⟨turn, isWrite, finds, answers, sameOthers, sameError⟩ : ∃ turn : Turn,
        turn.call = move.write ∧ turn.found = table.performAll turn.others ∧
          turn.found.Answers turn.call turn.reply turn.left .words ∧ turn.others = others ∧
          turn.error? = error? := by
      cases error? with
      | none => exact ⟨.carriedOut table others move.write, rfl, rfl, .inl rfl, rfl, rfl⟩
      | some error =>
        exact ⟨.failed table others move.write error, rfl, rfl, .inr ⟨error, rfl, rfl⟩, rfl, rfl⟩
    obtain ⟨turns, lawful, tried, same⟩ := ih turn.left pattern (Nat.succ.inj length)
    exact ⟨turn :: turns, .cons finds answers lawful, by simp [isWrite, tried],
      by simp [same, sameOthers, sameError]⟩

/-- What carrying out moves comes to: each of them is tried once, in order, has its effect, and is
returned if it was applied; and of two moves of a lease under one counter both are only if the lease was
set back in between. -/
structure CarriedOut (moves : List LeaseMove) (turns : List Turn) (applied : List LeaseMove) : Prop where
  tried : turns.map Turn.call = moves.map LeaseMove.write
  returned : applied = appliedMoves moves turns
  inOrder : applied.Sublist moves
  effect : ∀ move turn, (move, turn) ∈ moves.zip turns → move.Effect turn
  once : ∀ {i j : Nat} {one other : LeaseMove} {first last : Turn}, i < j →
    (moves.zip turns)[i]? = some (one, first) → (moves.zip turns)[j]? = some (other, last) →
    other.lease.leaseKey = one.lease.leaseKey → other.lease.counter = one.lease.counter →
    first.applied = true → last.applied = true →
      ∃ k, i ≤ k ∧ k < j ∧ SetBackAfter one.lease.leaseKey one.lease.counter turns k

/-- What is called and applied amid the calls of others are moves that are carried out. -/
theorem carriedOut_of_amid {σ Job : Type} {table : LeaseTable} {moves applied : List LeaseMove}
    {turns : List Turn} (run : (executeMoves moves : Script σ Job _).Amid table turns applied) :
    CarriedOut moves turns applied := by
  obtain ⟨lawful, tried, rfl⟩ := amid_executeMoves.1 run
  refine ⟨tried, rfl, appliedMoves_sublist .., fun move turn pair => ?effect,
    fun before first last => ?once⟩
  case effect =>
    obtain ⟨number, isPair⟩ := List.mem_iff_getElem?.1 pair
    obtain ⟨isMove, isTurn⟩ := List.getElem?_zip_eq_some.1 isPair
    exact effect_of_turns lawful tried isMove isTurn
  case once =>
    obtain ⟨isOne, isFirst⟩ := List.getElem?_zip_eq_some.1 first
    obtain ⟨isOther, isLast⟩ := List.getElem?_zip_eq_some.1 last
    exact setBack_of_applied lawful tried before isOne isFirst isOther isLast

/-- Whatever others call between the writes of moves, and whichever of these fail, the moves are carried
out. -/
theorem executeMoves_amid_others {σ Job : Type} (table : LeaseTable) (moves : List LeaseMove) :
    (∀ pattern : List (List StoreCall × Option StoreError), pattern.length = moves.length →
      ∃ turns applied, (executeMoves moves : Script σ Job _).Amid table turns applied ∧
        turns.map (fun turn => (turn.others, turn.error?)) = pattern) ∧
      ∀ turns applied, (executeMoves moves : Script σ Job _).Amid table turns applied →
        CarriedOut moves turns applied := by
  refine ⟨fun pattern length => ?_, fun turns applied run => carriedOut_of_amid run⟩
  obtain ⟨turns, lawful, tried, same⟩ := exists_turns table moves pattern length
  exact ⟨turns, _, amid_executeMoves.2 ⟨lawful, tried, rfl⟩, same⟩

/-- Two leases of one worker. -/
def contested : List Lease := [
  { leaseKey := "a", shardId := "a", owner := some "w1" },
  { leaseKey := "b", shardId := "b", owner := some "w1", counter := 5 }]

/-- Two moves of the first of them and one of the second, planned from what is stored. -/
def contestedMoves : List LeaseMove := [
  { lease := contested[0], source := "w1", target := "w0" },
  { lease := contested[0], source := "w1", target := "w2" },
  { lease := contested[1], source := "w1", target := "w0" }]

/-- Before the last of the moves, another worker takes the second lease over. -/
def contestedTurns : List Turn :=
  let first := Turn.carriedOut (.ofLeases contested) [] contestedMoves[0].write
  let second := Turn.carriedOut first.left [] contestedMoves[1].write
  let third := Turn.carriedOut second.left
    [.update (contested[1].transferredTo (some "w3")) contested[1].counter] contestedMoves[2].write
  [first, second, third]

/-- Only the first move is applied: the second finds what the first has left, and the third what the
other worker has. -/
theorem executeMoves_amid_others_contested :
    (executeMoves contestedMoves : Script Unit Unit _).Amid (.ofLeases contested) contestedTurns
        (contestedMoves.take 1) ∧
      CarriedOut contestedMoves contestedTurns (contestedMoves.take 1) := by
  have lawful : Turns (.ofLeases contested) contestedTurns :=
    .cons rfl (.inl rfl) (.cons rfl (.inl rfl) (.cons rfl (.inl rfl) (.nil _)))
  have run : (executeMoves contestedMoves : Script Unit Unit _).Amid (.ofLeases contested)
      contestedTurns (contestedMoves.take 1) :=
    amid_executeMoves.2 ⟨lawful, rfl, by decide +kernel⟩
  exact ⟨run, (executeMoves_amid_others (.ofLeases contested) contestedMoves).2 _ _ run⟩

/-- A lease at the last word, and the move of it. -/
def lastMove : LeaseMove where
  lease := { leaseKey := "a", shardId := "a", owner := some "w1", counter := Decimal.wordLimit - 1 }
  source := "w1"
  target := "w0"

/-- Two moves of a lease under one counter are both applied if others delete it in between and create it
again as it was, and a move from the last word stores the lease at zero. -/
theorem moved_twice_after_recreation :
    (∃ turns, (executeMoves (contestedMoves.take 2) : Script Unit Unit _).Amid (.ofLeases contested) turns
        (contestedMoves.take 2)) ∧
      ∃ turn, (executeMoves [lastMove] : Script Unit Unit _).Amid (.ofLeases [lastMove.lease]) [turn]
          [lastMove] ∧
        turn.left.get? "a" = some { lastMove.lease with owner := some "w0", counter := 0, ownerSwitches := 1 } := by
  constructor
  · let first := Turn.carriedOut (.ofLeases contested) [] contestedMoves[0].write
    let second := Turn.carriedOut first.left [.delete "a", .create contested[0]] contestedMoves[1].write
    exact ⟨[first, second], amid_executeMoves.2
      ⟨.cons rfl (.inl rfl) (.cons rfl (.inl rfl) (.nil _)), rfl, by decide +kernel⟩⟩
  · refine ⟨.carriedOut (.ofLeases [lastMove.lease]) [] lastMove.write, amid_executeMoves.2
      ⟨.cons rfl (.inl rfl) (.nil _), rfl, by decide +kernel⟩, by decide +kernel⟩

end LeaseFleet
