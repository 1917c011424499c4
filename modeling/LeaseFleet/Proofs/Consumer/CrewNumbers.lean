import LeaseFleet.Worker.State

/-!
# Consumers by number

What asking and starting does to the consumers of a crew, number by number. The worker knows its
consumers by such numbers; that each of its numbers is that of one consumer, which no other shard
has, is kept by all that a worker does with its consumers (`Staffed`).
-/

namespace LeaseFleet

namespace Crew

variable {crew later : Crew} {number other : Nat} {reason : ShutdownReason} {shard : AssignedShard}

/-- The lease and the token for which a consumer was started. -/
def origin? (crew : Crew) (number : Nat) : Option (String × Token) :=
  (crew.member? number).map fun consumer => (consumer.leaseKey, consumer.token)

theorem member?_ask :
    (crew.ask number reason).member? other =
      if other = number then (crew.member? other).map (·.ask reason) else crew.member? other := by
  unfold ask modify member?
  rw [List.getElem?_modify]
  by_cases same : number = other
  · simp [same]
  · simp [same, Ne.symm same]

theorem member?_isSome : (crew.member? number).isSome = true ↔ number < crew.members.length := by
  simp [member?]

theorem member?_length : crew.member? crew.members.length = none := by
  simp [member?]

/-- Asking a consumer to stop concerns that consumer only, which is asked from then on. -/
theorem isAsked_askOnce : (crew.askOnce number reason).isAsked other = true ↔
    crew.isAsked other = true ∨ other = number ∧ other < crew.members.length := by
  unfold askOnce
  split
  · rename_i asked
    refine ⟨.inl, ?_⟩
    rintro (before | ⟨rfl, _⟩)
    · exact before
    · exact asked
  · unfold isAsked
    rw [member?_ask]
    by_cases same : other = number
    · subst same
      rw [if_pos rfl, ← member?_isSome]
      cases found : crew.member? other with
      | none => simp
      | some consumer => simp [Consumer.isAsked, Consumer.ask]
    · simp [same]

@[simp] theorem isStopped_askOnce : (crew.askOnce number reason).isStopped other = crew.isStopped other := by
  unfold askOnce isStopped
  split
  · rfl
  · rw [member?_ask]
    split
    · cases crew.member? other <;> rfl
    · rfl

@[simp] theorem origin?_askOnce : (crew.askOnce number reason).origin? other = crew.origin? other := by
  unfold askOnce origin?
  split
  · rfl
  · rw [member?_ask]
    split
    · cases crew.member? other <;> rfl
    · rfl

@[simp] theorem length_askOnce : (crew.askOnce number reason).members.length = crew.members.length := by
  unfold askOnce ask modify
  split
  · rfl
  · rw [List.length_modify]

@[simp] theorem length_finish : (crew.finish number).members.length = crew.members.length := by
  unfold finish modify
  split
  · rfl
  · rw [List.length_modify]

section

variable (started : crew.start shard = .ok (number, later))

include started

theorem number_of_start : number = crew.members.length := by
  unfold start at started
  split at started
  · cases started
  · cases started
  · cases started
    rfl

theorem members_of_start :
    later.members = crew.members ++ [{ leaseKey := shard.leaseKey, token := shard.token }] := by
  unfold start at started
  split at started
  · cases started
  · cases started
  · cases started
    rfl

/-- A new consumer is the next one; the others are as they were. -/
theorem member?_of_start : later.member? other =
    if other = crew.members.length then some { leaseKey := shard.leaseKey, token := shard.token }
    else crew.member? other := by
  unfold member?
  rw [members_of_start started]
  split
  · rename_i same
    simp [same]
  · rename_i differs
    by_cases earlier : other < crew.members.length
    · exact List.getElem?_append_left earlier
    · rw [List.getElem?_eq_none (by simp; omega), List.getElem?_eq_none (by omega)]

/-- A new consumer is not asked to stop yet. -/
theorem isAsked_of_start : later.isAsked other = crew.isAsked other := by
  unfold isAsked
  rw [member?_of_start started]
  split
  · rename_i same
    rw [same, member?_length]
    rfl
  · rfl

theorem isStopped_of_start : later.isStopped other = crew.isStopped other := by
  unfold isStopped
  rw [member?_of_start started]
  split
  · rename_i same
    rw [same, member?_length]
    rfl
  · rfl

end

/-- The later crew is the same, but some of its consumers have been asked to stop. -/
structure AsksOnly (crew later : Crew) (numbers : Nat → Prop) : Prop where
  length : later.members.length = crew.members.length
  origin : ∀ number, later.origin? number = crew.origin? number
  stopped : ∀ number, later.isStopped number = crew.isStopped number
  asked : ∀ number, later.isAsked number = true ↔
    crew.isAsked number = true ∨ numbers number ∧ number < crew.members.length

theorem AsksOnly.refl (crew : Crew) : crew.AsksOnly crew fun _ => False :=
  ⟨rfl, fun _ => rfl, fun _ => rfl, by simp⟩

theorem AsksOnly.askOnce {numbers : Nat → Prop} (asks : crew.AsksOnly later numbers) (number : Nat)
    (reason : ShutdownReason) :
    crew.AsksOnly (later.askOnce number reason) fun other => numbers other ∨ other = number where
  length := by rw [length_askOnce, asks.length]
  origin other := by rw [origin?_askOnce, asks.origin]
  stopped other := by rw [isStopped_askOnce, asks.stopped]
  asked other := by
    rw [isAsked_askOnce, asks.asked, asks.length, or_assoc, ← or_and_right]

end Crew

/-! ## Staffed workers -/

namespace Worker

/-- The numbers that the worker has for its shards are those of consumers, and no two shards have the
same one. -/
structure Staffed (worker : Worker) : Prop where
  known : ∀ {key number}, worker.consumers.get? key = some number → number < worker.crew.members.length
  distinct : ∀ {key other number}, worker.consumers.get? key = some number →
    worker.consumers.get? other = some number → key = other

variable {worker after : Worker} {shard : AssignedShard} {number : Nat}

/-- A worker that has started nothing is staffed. -/
theorem staffed_of_empty (none : worker.consumers = .empty) : worker.Staffed where
  known found := by simp [none] at found
  distinct found := by simp [none] at found

theorem staffed_of_entries
    (known : ∀ entry ∈ worker.consumers.entries, entry.2 < worker.crew.members.length)
    (distinct : ∀ entry ∈ worker.consumers.entries, ∀ other ∈ worker.consumers.entries,
      entry.2 = other.2 → entry.1 = other.1) : worker.Staffed where
  known found := known _ (SortedMap.get?_eq_some_iff.1 found)
  distinct found there :=
    distinct _ (SortedMap.get?_eq_some_iff.1 found) _ (SortedMap.get?_eq_some_iff.1 there) rfl

/-- Where only consumers are asked or forgotten, the worker stays staffed. -/
theorem Staffed.of_fewer (staffed : worker.Staffed)
    (fewer : ∀ {key number}, after.consumers.get? key = some number →
      worker.consumers.get? key = some number)
    (crew : worker.crew.members.length ≤ after.crew.members.length) : after.Staffed where
  known found := Nat.lt_of_lt_of_le (staffed.known (fewer found)) crew
  distinct found other := staffed.distinct (fewer found) (fewer other)

/-- What engaging comes to: there was a consumer, or the crew has started one, or it has refused. -/
theorem engage_cases (worker : Worker) (shard : AssignedShard) :
    (∃ number, worker.consumers.get? shard.key = some number ∧ worker.engage shard = .ok (number, worker)) ∨
    (∃ crew, worker.consumers.get? shard.key = none ∧
      worker.crew.start shard = .ok (worker.crew.members.length, crew) ∧
      worker.engage shard = .ok (worker.crew.members.length, { worker with
        crew, consumers := worker.consumers.insert shard.key worker.crew.members.length })) ∨
    ∃ error, worker.consumers.get? shard.key = none ∧ worker.engage shard = .error error := by
  unfold engage
  cases found : worker.consumers.get? shard.key with
  | some number => exact .inl ⟨number, rfl, rfl⟩
  | none =>
    cases started : worker.crew.start shard with
    | error reason => exact .inr (.inr ⟨_, rfl, rfl⟩)
    | ok result =>
      obtain ⟨number, crew⟩ := result
      obtain rfl := Crew.number_of_start started
      exact .inr (.inl ⟨crew, rfl, rfl, rfl⟩)

theorem Staffed.engage (staffed : worker.Staffed) (engaged : worker.engage shard = .ok (number, after)) :
    after.Staffed := by
  rcases worker.engage_cases shard with ⟨_, _, same⟩ | ⟨crew, absent, started, same⟩ | ⟨error, _, same⟩
  · obtain ⟨rfl, rfl⟩ := Prod.mk.inj (Except.ok.inj (same.symm.trans engaged))
    exact staffed
  · obtain ⟨rfl, rfl⟩ := Prod.mk.inj (Except.ok.inj (same.symm.trans engaged))
    have length : crew.members.length = worker.crew.members.length + 1 := by
      rw [Crew.members_of_start started, List.length_append]
      rfl
    constructor
    · intro key number found
      rcases SortedMap.get?_insert_eq_some_iff.1 found with ⟨_, rfl⟩ | ⟨_, found⟩
      · exact length ▸ Nat.lt_succ_self _
      · exact length ▸ Nat.lt_succ_of_lt (staffed.known found)
    · intro key other number found there
      rcases SortedMap.get?_insert_eq_some_iff.1 found with ⟨rfl, rfl⟩ | ⟨_, found⟩
      · rcases SortedMap.get?_insert_eq_some_iff.1 there with ⟨rfl, _⟩ | ⟨_, there⟩
        · rfl
        · exact absurd (staffed.known there) (Nat.lt_irrefl _)
      · rcases SortedMap.get?_insert_eq_some_iff.1 there with ⟨_, rfl⟩ | ⟨_, there⟩
        · exact absurd (staffed.known found) (Nat.lt_irrefl _)
        · exact staffed.distinct found there
  · cases same.symm.trans engaged

/-- The consumers of all shards but the given ones have been asked to stop. -/
theorem asksOnly_askOthers (worker : Worker) (keep : List ShardKey) :
    worker.crew.AsksOnly (worker.askOthers keep) fun number =>
      ∃ key, worker.consumers.get? key = some number ∧ key ∉ keep := by
  have along (rest : List (ShardKey × Nat)) (crew : Crew) (numbers : Nat → Prop)
      (asks : worker.crew.AsksOnly crew numbers) :
      worker.crew.AsksOnly (rest.foldl (fun crew entry =>
        if keep.contains entry.1 then crew else crew.askOnce entry.2 .leaseLost) crew)
          fun number => numbers number ∨ ∃ key, (key, number) ∈ rest ∧ key ∉ keep := by
    induction rest generalizing crew numbers with
    | nil => simpa using asks
    | cons entry rest ih =>
      by_cases kept : entry.1 ∈ keep
      · have others := ih crew numbers asks
        have same (number : Nat) : (∃ key, (key, number) ∈ entry :: rest ∧ key ∉ keep) ↔
            ∃ key, (key, number) ∈ rest ∧ key ∉ keep := by
          refine exists_congr fun key => and_congr_left fun lost => ?_
          refine ⟨fun mem => (List.mem_cons.1 mem).resolve_left ?_, List.mem_cons_of_mem _⟩
          rintro rfl
          exact lost kept
        simpa only [List.foldl_cons, List.contains_iff_mem, kept, if_true, same] using others
      · have others := ih _ _ (asks.askOnce entry.2 .leaseLost)
        have same (number : Nat) : (∃ key, (key, number) ∈ entry :: rest ∧ key ∉ keep) ↔
            number = entry.2 ∨ ∃ key, (key, number) ∈ rest ∧ key ∉ keep := by
          constructor
          · rintro ⟨key, mem, lost⟩
            rcases List.mem_cons.1 mem with rfl | mem
            · exact .inl rfl
            · exact .inr ⟨key, mem, lost⟩
          · rintro (rfl | ⟨key, mem, lost⟩)
            · exact ⟨entry.1, List.mem_cons_self, kept⟩
            · exact ⟨key, List.mem_cons_of_mem _ mem, lost⟩
        simpa only [List.foldl_cons, List.contains_iff_mem, kept, if_false, same, or_assoc] using others
  have all := along worker.consumers.entries worker.crew _ (.refl _)
  simp only [false_or] at all
  simp only [SortedMap.get?_eq_some_iff]
  exact all

theorem get?_dismiss {keep : List ShardKey} {key : ShardKey} :
    (worker.dismiss keep).consumers.get? key = some number ↔
      worker.consumers.get? key = some number ∧ worker.crew.isStopped number = false := by
  unfold dismiss
  rw [SortedMap.get?_filter, Option.filter_eq_some_iff, (worker.asksOnly_askOthers keep).stopped,
    Bool.not_eq_true']

theorem Staffed.dismiss (staffed : worker.Staffed) (keep : List ShardKey) :
    (worker.dismiss keep).Staffed :=
  staffed.of_fewer (fun found => (get?_dismiss.1 found).1)
    (Nat.le_of_eq (worker.asksOnly_askOthers keep).length.symm)

end Worker

end LeaseFleet
