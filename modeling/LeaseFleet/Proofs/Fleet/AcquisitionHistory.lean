import LeaseFleet.Proofs.Fleet.DutyTitles

/-!
# What goes back to an acquisition

A token is given after an acquisition has been stored. A version goes back to the acquisition of a token
by writes under the token only (`Archive.Tenure`), if each of these was made from such a version. As
every applied write raises the counter of its lease (`Event.Progress`), the writes of a lease come in the
order of their counters (`Chronicle`), and no later write gets in between.
-/

namespace LeaseFleet

/-- A call with an applied update has stored what it gives, over the version that it was made against. -/
theorem LeaseTable.perform_updated {table : LeaseTable} {call : StoreCall} {applied : AppliedUpdate}
    (isApplied : call.applied? (table.perform call).1 = some applied) :
    call = .update applied.proposal applied.expected ∧
      applied.stored = { applied.proposal with counter := applied.expected + 1 } ∧
      (table.perform call).2 = table.put applied.stored ∧
      ∃ earlier, table.get? applied.proposal.leaseKey = some earlier ∧ earlier.counter = applied.expected := by
  cases call with
  | list | isEmpty | delete leaseKey | create lease => simp [StoreCall.applied?] at isApplied
  | update proposal expected =>
    have reply : (table.perform (.update proposal expected)).1 = .ok (table.update proposal expected).1 := rfl
    rw [reply] at isApplied
    cases outcome : (table.update proposal expected).1 with
    | versionConflict | notFound =>
      rw [outcome] at isApplied
      simp [StoreCall.applied?] at isApplied
    | updated written =>
      rw [outcome] at isApplied
      obtain rfl : _ = applied := Option.some.inj isApplied
      obtain ⟨earlier, rfl⟩ := LeaseTable.update_updated.1 outcome
      exact ⟨rfl, rfl, LeaseTable.update_table outcome, earlier⟩

namespace Event

/-- An acquisition by the worker at the place has stored the version. -/
def Acquires (place : String) (stored : Lease) : Event Duty Outcome → Prop
  | called there duty call reply => there = place ∧ duty.office = .takes ∧
    ∃ applied, call.applied? reply = some applied ∧ applied.stored = stored
  | _ => False

/-- A call of the worker at the place, by a duty that writes the lease under the token. -/
def IsUnder (place leaseKey : String) (token : Token) : Event Duty Outcome → Prop
  | called there duty _ _ => there = place ∧ duty.office = .tends leaseKey token
  | _ => False

/-- What a step does to the counters of the table: none of them falls, and an applied update raises
that of its lease by one. -/
structure Progress (event : Event Duty Outcome) (before after : LeaseTable) : Prop where
  counter : ∀ {leaseKey lease}, before.get? leaseKey = some lease →
    ∃ later, after.get? leaseKey = some later ∧ lease.counter ≤ later.counter
  applied : ∀ {applied}, event.applied? = some applied →
    after.get? applied.stored.leaseKey = some applied.stored ∧
      applied.stored = { applied.proposal with counter := applied.expected + 1 } ∧
        ∃ earlier, before.get? applied.stored.leaseKey = some earlier ∧ earlier.counter = applied.expected

namespace Progress

variable {event : Event Duty Outcome} {table after : LeaseTable}

/-- An applied update stores a higher counter than the version that it replaces. -/
theorem exceeds (progress : event.Progress table after) {applied : AppliedUpdate}
    (isApplied : event.applied? = some applied) {stored : Lease}
    (found : table.get? applied.stored.leaseKey = some stored) :
    stored.counter < applied.stored.counter := by
  obtain ⟨_, written, earlier, here, expected⟩ := progress.applied isApplied
  obtain rfl := Option.some.inj (found.symm.trans here)
  rw [written, expected]
  exact Nat.lt_succ_self _

theorem of_same (notApplied : event.applied? = none) : event.Progress table table where
  counter found := ⟨_, found, Nat.le_refl _⟩
  applied isApplied := by simp [notApplied] at isApplied

theorem of_perform {call : StoreCall} (kept : ¬call.Deletes (table.perform call).1)
    (shows : event.applied? = call.applied? (table.perform call).1) :
    event.Progress table (table.perform call).2 where
  counter found := LeaseTable.perform_counter found kept
  applied {applied} isApplied := by
    obtain ⟨_, written, after, earlier⟩ := LeaseTable.perform_updated (shows ▸ isApplied)
    rw [after]
    exact ⟨SortedMap.get?_insert_self .., written, by rw [written]; exact earlier⟩

end Progress

end Event

/-! ## The order of the writes -/

/-- The writes of one lease, each of which has raised its counter. -/
structure Chronicle (table : LeaseTable) (trace : List (Event Duty Outcome)) : Prop where
  reached : ∀ event ∈ trace, ∀ {applied}, event.applied? = some applied →
    ∃ stored, table.get? applied.stored.leaseKey = some stored ∧ applied.stored.counter ≤ stored.counter
  sorted : trace.Pairwise fun earlier later => ∀ {first second}, earlier.applied? = some first →
    later.applied? = some second → first.stored.leaseKey = second.stored.leaseKey →
      first.stored.counter < second.stored.counter

theorem Chronicle.nil (table : LeaseTable) : Chronicle table [] where
  reached _ mem := by cases mem
  sorted := .nil

theorem Chronicle.snoc {table after : LeaseTable} {trace : List (Event Duty Outcome)}
    {event : Event Duty Outcome} (chronicle : Chronicle table trace) (progress : event.Progress table after) :
    Chronicle after (trace ++ [event]) where
  reached other mem applied isApplied := by
    rcases List.mem_append.1 mem with earlier | last
    · obtain ⟨stored, found, le⟩ := chronicle.reached other earlier isApplied
      obtain ⟨later, there, le'⟩ := progress.counter found
      exact ⟨later, there, Nat.le_trans le le'⟩
    · obtain rfl := List.mem_singleton.1 last
      exact ⟨_, (progress.applied isApplied).1, Nat.le_refl _⟩
  sorted := by
    refine List.pairwise_append.2 ⟨chronicle.sorted, List.pairwise_singleton .., ?_⟩
    intro earlier mem last isLast first second firstApplied secondApplied sameKey
    obtain rfl := List.mem_singleton.1 isLast
    obtain ⟨stored, found, le⟩ := chronicle.reached earlier mem firstApplied
    exact Nat.lt_of_le_of_lt le (progress.exceeds secondApplied (sameKey ▸ found))

theorem Chronicle.of_inner {table : LeaseTable} {trace : List (Event Duty Outcome)}
    (chronicle : Chronicle table (trace ++ [.inner])) : Chronicle table trace where
  reached event mem := chronicle.reached event (List.mem_append_left _ mem)
  sorted := (List.pairwise_append.1 chronicle.sorted).1

/-! ## Tenures -/

/-- What was given, stored and shown so far. -/
structure Archive where
  /-- The version for whose acquisition a token was given. -/
  origin : Token → Lease
  /-- How many tokens were given. -/
  tokens : Nat
  table : LeaseTable
  trace : List (Event Duty Outcome)

namespace Archive

/-- The version goes back to the acquisition for which the token was given, by writes under the token
only. -/
structure Tenure (archive : Archive) (place : String) (token : Token) (lease : Lease) : Prop where
  known : token.serial < archive.tokens
  sameKey : (archive.origin token).leaseKey = lease.leaseKey
  acquired : ∃ event ∈ archive.trace, event.Acquires place (archive.origin token)
  since : (archive.origin token).counter ≤ lease.counter
  reached : ∃ stored, archive.table.get? lease.leaseKey = some stored ∧ lease.counter ≤ stored.counter
  own : ∀ event ∈ archive.trace, ∀ {applied}, event.applied? = some applied →
    applied.stored.leaseKey = lease.leaseKey → (archive.origin token).counter < applied.stored.counter →
      applied.stored.counter ≤ lease.counter → event.IsUnder place lease.leaseKey token

/-- The archive after one more event. -/
structure Extends (archive later : Archive) (event : Event Duty Outcome) : Prop where
  origin : ∀ {token}, token.serial < archive.tokens → later.origin token = archive.origin token
  tokens : archive.tokens ≤ later.tokens
  trace : later.trace = archive.trace ++ [event]
  progress : event.Progress archive.table later.table

variable {archive later : Archive} {event : Event Duty Outcome} {place : String} {token : Token}
  {lease : Lease}

/-- A later write is none of those that the version goes back by. -/
theorem Tenure.extends (tenure : archive.Tenure place token lease) (more : archive.Extends later event) :
    later.Tenure place token lease := by
  have same := more.origin tenure.known
  refine ⟨Nat.lt_of_lt_of_le tenure.known more.tokens, ?_, ?_, ?_, ?_, ?_⟩
  · rw [same]
    exact tenure.sameKey
  · obtain ⟨acquisition, mem, acquires⟩ := tenure.acquired
    rw [same, more.trace]
    exact ⟨acquisition, List.mem_append_left _ mem, acquires⟩
  · rw [same]
    exact tenure.since
  · obtain ⟨stored, found, le⟩ := tenure.reached
    obtain ⟨now, there, le'⟩ := more.progress.counter found
    exact ⟨now, there, Nat.le_trans le le'⟩
  · rw [same, more.trace]
    intro other mem applied isApplied sameKey after upTo
    rcases List.mem_append.1 mem with earlier | last
    · exact tenure.own other earlier isApplied sameKey after upTo
    · obtain rfl := List.mem_singleton.1 last
      obtain ⟨stored, found, le⟩ := tenure.reached
      have exceeds := more.progress.exceeds isApplied (sameKey ▸ found)
      exact absurd (Nat.le_trans upTo le) (Nat.not_le.2 exceeds)

/-- What is written under the token from such a version is one more. -/
theorem Tenure.written (tenure : archive.Tenure place token lease)
    (chronicle : Chronicle archive.table archive.trace) (more : archive.Extends later event)
    {applied : AppliedUpdate} (isApplied : event.applied? = some applied)
    (sameKey : applied.stored.leaseKey = lease.leaseKey) (expected : applied.expected = lease.counter)
    (under : event.IsUnder place lease.leaseKey token) : later.Tenure place token applied.stored := by
  have kept := tenure.extends more
  obtain ⟨found, written, before, here, counter⟩ := more.progress.applied isApplied
  have next : applied.stored.counter = lease.counter + 1 := by rw [written, expected]
  refine ⟨kept.known, kept.sameKey.trans sameKey.symm, kept.acquired, ?_, ⟨_, found, Nat.le_refl _⟩, ?_⟩
  · rw [next]
    exact Nat.le_succ_of_le kept.since
  · intro other mem update isUpdate aboutIt after upTo
    rw [sameKey] at aboutIt ⊢
    rw [more.trace] at mem
    rcases List.mem_append.1 mem with earlier | last
    · -- a write so far has stored no more than what this one was made from
      obtain ⟨stored, there, le⟩ := chronicle.reached other earlier isUpdate
      rw [aboutIt, ← sameKey] at there
      obtain rfl := Option.some.inj (here.symm.trans there)
      rw [counter, expected] at le
      exact kept.own other (more.trace ▸ List.mem_append_left _ earlier) isUpdate aboutIt after le
    · obtain rfl := List.mem_singleton.1 last
      exact under

/-- As long as the version is the stored one, the lease has been written under the token only since the
acquisition. -/
theorem Tenure.undisturbed (tenure : archive.Tenure place token lease)
    (chronicle : Chronicle archive.table archive.trace) {earlier rest : List (Event Duty Outcome)}
    {acquisition : Event Duty Outcome} (split : archive.trace = earlier ++ acquisition :: rest)
    (acquires : acquisition.Acquires place (archive.origin token)) {stored : Lease}
    (found : archive.table.get? lease.leaseKey = some stored) (current : stored.counter = lease.counter)
    {other : Event Duty Outcome} (mem : other ∈ rest) {write : AppliedUpdate}
    (isApplied : other.applied? = some write) (sameKey : write.stored.leaseKey = lease.leaseKey) :
    other.IsUnder place lease.leaseKey token := by
  have inTrace : other ∈ archive.trace := by
    rw [split]
    exact List.mem_append_right _ (List.mem_cons_of_mem _ mem)
  obtain ⟨first, firstApplied, isFirst⟩ : ∃ first, acquisition.applied? = some first ∧
      first.stored = archive.origin token := by
    cases acquisition with
    | called there duty call reply => exact acquires.2.2
    | _ => exact acquires.elim
  have after : (archive.origin token).counter < write.stored.counter := by
    have sorted := chronicle.sorted
    rw [split] at sorted
    have fromThen := (List.pairwise_append.1 sorted).2.1
    rw [← isFirst]
    refine (List.pairwise_cons.1 fromThen).1 other mem firstApplied isApplied ?_
    rw [isFirst, tenure.sameKey, sameKey]
  have upTo : write.stored.counter ≤ lease.counter := by
    obtain ⟨now, there, le⟩ := chronicle.reached other inTrace isApplied
    rw [sameKey] at there
    obtain rfl := Option.some.inj (there.symm.trans found)
    exact current ▸ le
  exact tenure.own other inTrace isApplied sameKey after upTo

end Archive

/-- There is something behind a title. -/
def Title.Backed (archive : Archive) (place : String) : Title → Prop
  | won stored => (∃ event ∈ archive.trace, event.Acquires place stored) ∧
    ∃ now, archive.table.get? stored.leaseKey = some now ∧ stored.counter ≤ now.counter
  | granted stored token => archive.origin token = stored ∧ archive.Tenure place token stored
  | copy lease token => archive.Tenure place token lease

theorem Title.Backed.extends {archive later : Archive} {event : Event Duty Outcome} {place : String}
    {title : Title} (backed : title.Backed archive place) (more : archive.Extends later event) :
    title.Backed later place := by
  cases title with
  | won stored =>
    obtain ⟨⟨acquisition, mem, acquires⟩, now, found, le⟩ := backed
    obtain ⟨after, there, le'⟩ := more.progress.counter found
    exact ⟨⟨acquisition, more.trace ▸ List.mem_append_left _ mem, acquires⟩, after, there, Nat.le_trans le le'⟩
  | granted stored token =>
    obtain ⟨same, tenure⟩ := backed
    exact ⟨(more.origin tenure.known).trans same, tenure.extends more⟩
  | copy lease token => exact Archive.Tenure.extends backed more

/-- A step that shows nothing is behind nothing. -/
theorem Archive.Tenure.of_inner {archive : Archive} {place : String} {token : Token} {lease : Lease}
    (tenure : Archive.Tenure { archive with trace := archive.trace ++ [.inner] } place token lease) :
    archive.Tenure place token lease where
  known := tenure.known
  sameKey := tenure.sameKey
  acquired := by
    obtain ⟨acquisition, mem, acquires⟩ := tenure.acquired
    rcases List.mem_append.1 mem with earlier | last
    · exact ⟨acquisition, earlier, acquires⟩
    · obtain rfl := List.mem_singleton.1 last
      exact acquires.elim
  since := tenure.since
  reached := tenure.reached
  own event mem := tenure.own event (List.mem_append_left _ mem)

theorem Title.Backed.of_inner {archive : Archive} {place : String} {title : Title}
    (backed : title.Backed { archive with trace := archive.trace ++ [.inner] } place) :
    title.Backed archive place := by
  cases title with
  | won stored =>
    obtain ⟨⟨acquisition, mem, acquires⟩, reached⟩ := backed
    rcases List.mem_append.1 mem with earlier | last
    · exact ⟨⟨acquisition, earlier, acquires⟩, reached⟩
    · obtain rfl := List.mem_singleton.1 last
      exact acquires.elim
  | granted stored token => exact ⟨backed.1, Archive.Tenure.of_inner backed.2⟩
  | copy lease token => exact Archive.Tenure.of_inner backed

/-! ## What is behind the titles that are given -/

section

variable {archive later : Archive} {titles : Titles} {place : String} {duty : Duty} {title : Title}

/-- There is something behind a title that an applied write gives. -/
theorem Title.Backed.of_write {call : StoreCall} {reply : call.Reply}
    (backed : ∀ title, titles title → title.Backed archive place)
    (chronicle : Chronicle archive.table archive.trace)
    (more : archive.Extends later (.called place duty call reply))
    (entitled : Entitled duty.office titles (.store call))
    (gives : Gives duty.office titles (.store call) reply title) : title.Backed later place := by
  match call, reply with
  | .update proposal expected, .ok (.updated stored) =>
    have isApplied : (Event.called place duty (.update proposal expected)
        (.ok (.updated stored)) : Event Duty Outcome).applied? = some ⟨proposal, expected, stored⟩ := rfl
    obtain ⟨found, written, _⟩ := more.progress.applied isApplied
    cases office : duty.office with
    | tends leaseKey token =>
      rw [office] at entitled gives
      obtain rfl : title = .copy stored token := gives
      obtain ⟨isKey, base, copy, baseKey, sameCounter⟩ := entitled leaseKey token rfl
      have storedKey : stored.leaseKey = base.leaseKey := by
        rw [baseKey, ← isKey, show stored = _ from written]
      have tenure : archive.Tenure place token base := backed _ copy
      exact tenure.written chronicle more isApplied storedKey sameCounter ⟨rfl, baseKey ▸ office⟩
    | takes =>
      rw [office] at gives
      obtain rfl : title = .won stored := gives
      have last : Event.called place duty (.update proposal expected) (.ok (.updated stored)) ∈ later.trace :=
        more.trace ▸ List.mem_append_right _ List.mem_cons_self
      exact ⟨⟨_, last, rfl, office, _, isApplied, rfl⟩, stored, found, Nat.le_refl _⟩
    | other =>
      rw [office] at gives
      exact gives.elim
  | .update _ _, .ok .versionConflict | .update _ _, .ok .notFound | .update _ _, .error _ =>
    exact gives.elim
  | .list, _ | .create _, _ | .delete _, _ | .isEmpty, _ => exact gives.elim

/-- A new token is given for one acquisition. -/
def Archive.give (archive : Archive) (stored : Lease) : Archive :=
  { archive with
    origin := fun token => if token = ⟨archive.tokens⟩ then stored else archive.origin token
    tokens := archive.tokens + 1
    trace := archive.trace ++ [.inner] }

theorem Archive.extends_give (archive : Archive) (stored : Lease) :
    archive.Extends (archive.give stored) .inner where
  origin {token} known := by
    have earlier : token ≠ ⟨archive.tokens⟩ := by
      rintro rfl
      exact Nat.lt_irrefl _ known
    exact if_neg earlier
  tokens := Nat.le_succ _
  trace := rfl
  progress := .of_same rfl

/-- A token that is given for an acquisition is held by nobody yet. -/
theorem Title.Backed.of_grant {stored : Lease} (won : (Title.won stored).Backed archive place) :
    (Title.granted stored ⟨archive.tokens⟩).Backed (archive.give stored) place := by
  obtain ⟨⟨acquisition, mem, acquires⟩, reached⟩ := won
  have origin : (archive.give stored).origin ⟨archive.tokens⟩ = stored := if_pos rfl
  refine ⟨origin, Nat.lt_succ_self _, by rw [origin], ?_, Nat.le_of_eq (by rw [origin]), reached, ?_⟩
  · exact ⟨acquisition, List.mem_append_left _ mem, by rw [origin]; exact acquires⟩
  · rw [origin]
    intro _ _ _ _ _ after upTo
    exact absurd after (Nat.not_lt.2 upTo)

end

end LeaseFleet
