import LeaseFleet.Stream.Identifier

/-!
# How streams are spelled

The two texts that name a stream with its account: `account:name:epoch` and the ARN. A text is cut at
its colons from the left, so its parts are determined by it (`splitFirst_eq_some_iff`), and the reader
accepts exactly the texts of one of the two forms (`ofMulti_eq_ok_iff`).
-/

namespace LeaseFleet

namespace Decimal

theorem ofDigits_toDigits (n : Nat) : ofDigits (Nat.toDigits 10 n) = n :=
  Nat.ofDigitChars_toDigits (by decide) (by decide)

theorem isDigits_toDigits (n : Nat) : isDigits (Nat.toDigits 10 n) = true := by
  have digit : ∀ c ∈ Nat.toDigits 10 n, c.isDigit = true :=
    fun c mem => Nat.isDigit_of_mem_toDigits (by decide) (by decide) mem
  simpa [isDigits, Nat.toDigits_ne_nil] using digit

theorem isDigits_toString (n : Nat) : isDigits (toString n).toList = true := by
  simpa using isDigits_toDigits n

theorem isDigit_of_mem {text : List Char} {c : Char} (digits : isDigits text = true) (mem : c ∈ text) :
    c.isDigit = true :=
  List.all_eq_true.1 (Bool.and_eq_true_iff.1 digits).2 c mem

theorem colon_not_mem {text : List Char} (digits : isDigits text = true) : ':' ∉ text :=
  fun mem => absurd (isDigit_of_mem digits mem) (by decide)

theorem ne_nil_of_isDigits {text : List Char} (digits : isDigits text = true) : text ≠ [] := by
  rintro rfl
  cases digits

end Decimal

namespace StreamIdentifier

/-! ## Cutting texts -/

section

variable {separator : Char} {text part rest : List Char}

/-- The part before the first separator has none in it. -/
theorem splitFirst_eq_some_iff :
    splitFirst separator text = some (part, rest) ↔ text = part ++ separator :: rest ∧ separator ∉ part := by
  induction text generalizing part with
  | nil => simp [splitFirst]
  | cons c text ih =>
    unfold splitFirst
    by_cases here : c = separator
    · subst here
      rw [if_pos rfl]
      cases part with
      | nil => simp [eq_comm]
      | cons d part =>
        have differs : ¬(c :: text = d :: part ++ c :: rest ∧ c ∉ d :: part) := by
          rintro ⟨same, lacks⟩
          exact lacks ((List.cons.inj same).1 ▸ List.mem_cons_self)
        simpa using differs
    · rw [if_neg here]
      cases part with
      | nil => simp [here]
      | cons d part =>
        have tail : separator ∉ c :: part ↔ separator ∉ part := by simp [Ne.symm here]
        constructor
        · intro cut
          obtain ⟨⟨found, after⟩, cutRest, same⟩ := Option.map_eq_some_iff.1 cut
          obtain ⟨⟨rfl, rfl⟩, rfl⟩ : (c = d ∧ found = part) ∧ after = rest := by simpa using same
          obtain ⟨rfl, lacks⟩ := ih.1 cutRest
          exact ⟨rfl, tail.2 lacks⟩
        · rintro ⟨same, lacks⟩
          obtain ⟨rfl, rfl⟩ := List.cons.inj same
          rw [ih.2 ⟨rfl, tail.1 lacks⟩]
          rfl

theorem splitFirst_eq_none_iff : splitFirst separator text = none ↔ separator ∉ text := by
  induction text with
  | nil => simp [splitFirst]
  | cons c text ih =>
    unfold splitFirst
    by_cases here : c = separator
    · simp [here]
    · simp [here, ih, Ne.symm here]

/-- A text is cut at its first separator in one way only. -/
theorem cut_unique {part' rest' : List Char} (same : part ++ separator :: rest = part' ++ separator :: rest')
    (lacks : separator ∉ part) (lacks' : separator ∉ part') : part = part' ∧ rest = rest' := by
  have here : splitFirst separator (part ++ separator :: rest) = some (part, rest) :=
    splitFirst_eq_some_iff.2 ⟨rfl, lacks⟩
  rw [same, splitFirst_eq_some_iff.2 ⟨rfl, lacks'⟩] at here
  simpa [eq_comm] using here

/-- Splitting at every separator is cutting at the first one and splitting the rest. -/
theorem splitAtEvery_eq (text : List Char) :
    splitAtEvery separator text =
      match splitFirst separator text with
      | none => [text]
      | some (part, rest) => part :: splitAtEvery separator rest := by
  induction text with
  | nil => rfl
  | cons c text ih =>
    rw [splitAtEvery, splitFirst]
    by_cases here : c = separator
    · simp [here]
    · rw [if_neg here, if_neg here, ih]
      cases splitFirst separator text <;> simp

theorem splitAtEvery_of_not_mem (lacks : separator ∉ text) : splitAtEvery separator text = [text] := by
  rw [splitAtEvery_eq, splitFirst_eq_none_iff.2 lacks]

theorem splitAtEvery_append (lacks : separator ∉ part) :
    splitAtEvery separator (part ++ separator :: rest) = part :: splitAtEvery separator rest := by
  rw [splitAtEvery_eq, splitFirst_eq_some_iff.2 ⟨rfl, lacks⟩]

/-- The first of several parts ends at the first separator. -/
theorem splitAtEvery_eq_cons_cons {next : List Char} {parts : List (List Char)} :
    splitAtEvery separator text = part :: next :: parts ↔
      ∃ rest, (text = part ++ separator :: rest ∧ separator ∉ part) ∧
        splitAtEvery separator rest = next :: parts := by
  constructor
  · intro split
    rw [splitAtEvery_eq] at split
    cases cut : splitFirst separator text with
    | none => simp [cut] at split
    | some found =>
      obtain ⟨rfl, others⟩ : found.1 = part ∧ splitAtEvery separator found.2 = next :: parts := by
        simpa [cut] using split
      exact ⟨found.2, splitFirst_eq_some_iff.1 cut, others⟩
  · rintro ⟨rest, ⟨rfl, lacks⟩, others⟩
    rw [splitAtEvery_append lacks, others]

theorem splitAtEvery_eq_singleton :
    splitAtEvery separator text = [part] ↔ text = part ∧ separator ∉ part := by
  constructor
  · intro split
    rw [splitAtEvery_eq] at split
    cases cut : splitFirst separator text with
    | none =>
      obtain rfl : text = part := by simpa [cut] using split
      exact ⟨rfl, splitFirst_eq_none_iff.1 cut⟩
    | some found =>
      have none : splitAtEvery separator found.2 = [] := by simpa [cut] using (List.cons.inj (cut ▸ split)).2
      rw [splitAtEvery_eq] at none
      split at none <;> cases none
  · rintro ⟨rfl, lacks⟩
    exact splitAtEvery_of_not_mem lacks

theorem dropBeginning_eq_some_iff {beginning : List Char} :
    dropBeginning beginning text = some rest ↔ text = beginning ++ rest := by
  induction beginning generalizing text with
  | nil => simp [dropBeginning]
  | cons b beginning ih =>
    cases text with
    | nil => simp [dropBeginning]
    | cons c text =>
      unfold dropBeginning
      by_cases same : b = c
      · simp [same, ih]
      · simp [same, Ne.symm same]

end

/-! ## The two forms -/

/-- The text `account:name:epoch`. -/
structure EpochForm (text account name epoch : String) : Prop where
  spelled : text = account ++ ":" ++ name ++ ":" ++ epoch
  numbered : Decimal.isDigits account.toList = true
  named : name ≠ ""
  whole : ':' ∉ name.toList
  dated : Decimal.isDigits epoch.toList = true

/-- The text `arn:<partition>:kinesis:<region>:<account>:stream/<name>`. -/
structure ArnForm (text partition region account name : String) : Prop where
  spelled : text =
    "arn:" ++ partition ++ ":kinesis:" ++ region ++ ":" ++ account ++ ":stream/" ++ name
  begins : "aws".toList <+: partition.toList
  whole : ':' ∉ partition.toList
  located : region ≠ ""
  places : ∀ c ∈ region.toList, isRegionChar c = true
  numbered : isAccount account.toList = true
  named : name ≠ ""

/-- The stream that an account, a name and the digits of an epoch stand for. -/
def ofEpoch (account name epoch : String) : StreamIdentifier :=
  { accountId := some account
    streamName := name
    creationEpoch := epochOfDigits epoch.toList
    region := none }

/-- The stream that the region, the account and the name of an ARN stand for. -/
def ofRegion (region account name : String) : StreamIdentifier :=
  { accountId := some account
    streamName := name
    creationEpoch := none
    region := some region }

variable {text : String} {stream : StreamIdentifier}

theorem ofSerialized?_eq_some_iff :
    ofSerialized? text.toList = some stream ↔
      ∃ account name epoch, EpochForm text account name epoch ∧ stream = ofEpoch account name epoch := by
  constructor
  · intro read
    unfold ofSerialized? at read
    split at read
    · rename_i account name epoch parts
      obtain ⟨rest, ⟨spelled, _⟩, parts⟩ := splitAtEvery_eq_cons_cons.1 parts
      obtain ⟨last, ⟨nameFirst, whole⟩, parts⟩ := splitAtEvery_eq_cons_cons.1 parts
      obtain ⟨isLast, _⟩ := splitAtEvery_eq_singleton.1 parts
      rw [nameFirst, isLast] at spelled
      split at read
      · rename_i fits
        obtain ⟨⟨numbered, named⟩, dated⟩ :
            (Decimal.isDigits account = true ∧ name ≠ []) ∧ Decimal.isDigits epoch = true := by
          simpa using fits
        refine ⟨String.ofList account, String.ofList name, String.ofList epoch,
          ⟨?_, by simpa, by simpa, by simpa, by simpa⟩, ?_⟩
        · rw [← String.toList_inj, spelled]
          simp
        · simpa [ofEpoch] using (Option.some.inj read).symm
      · cases read
    · cases read
  · rintro ⟨account, name, epoch, form, rfl⟩
    have parts : splitAtEvery ':' text.toList = [account.toList, name.toList, epoch.toList] := by
      have spelled : text.toList = account.toList ++ ':' :: (name.toList ++ ':' :: epoch.toList) := by
        simp [form.spelled]
      rw [spelled, splitAtEvery_append (Decimal.colon_not_mem form.numbered), splitAtEvery_append form.whole,
        splitAtEvery_of_not_mem (Decimal.colon_not_mem form.dated)]
    simp [ofSerialized?, parts, form.numbered, form.dated, form.named, ofEpoch]

/-- The characters of an ARN, cut at its colons. -/
def arnChars (partition region account name : List Char) : List Char :=
  "arn:".toList ++ (partition ++ ':' :: ("kinesis".toList ++ ':' ::
    (region ++ ':' :: (account ++ ':' :: ("stream/".toList ++ name)))))

theorem toList_arnText {region account name : String} :
    (arnText region account name).toList = arnChars "aws".toList region.toList account.toList name.toList := by
  unfold arnText arnChars
  simp only [String.toList_append, String.reduceToList, List.append_assoc, List.cons_append, List.nil_append]

theorem arnChars_first (partition region account name : List Char) :
    arnChars partition region account name = 'a' :: (arnChars partition region account name).tail := by
  simp [arnChars]

/-- An ARN is cut in one way only. -/
theorem arn_unique {partition partition' region region' account account' name name' : List Char}
    (same : arnChars partition region account name = arnChars partition' region' account' name')
    (whole : ':' ∉ partition) (whole' : ':' ∉ partition') (places : ':' ∉ region) (places' : ':' ∉ region')
    (numbered : ':' ∉ account) (numbered' : ':' ∉ account') :
    region = region' ∧ account = account' ∧ name = name' := by
  obtain ⟨_, afterPartition⟩ := cut_unique (List.append_cancel_left same) whole whole'
  obtain ⟨_, afterService⟩ := cut_unique afterPartition (by simp) (by simp)
  obtain ⟨sameRegion, afterRegion⟩ := cut_unique afterService places places'
  obtain ⟨sameAccount, resource⟩ := cut_unique afterRegion numbered numbered'
  exact ⟨sameRegion, sameAccount, List.append_cancel_left resource⟩

theorem isAccount_iff {account : List Char} :
    isAccount account = true ↔ account.length = 12 ∧ Decimal.isDigits account = true := by
  unfold isAccount Decimal.isDigits
  cases account <;> simp

namespace ArnForm

variable {partition region account name : String} (form : ArnForm text partition region account name)

include form

theorem toList_eq :
    text.toList = arnChars partition.toList region.toList account.toList name.toList := by
  simp [form.spelled, arnChars]

theorem colon_not_mem_region : ':' ∉ region.toList :=
  fun mem => absurd (form.places _ mem) (by decide)

theorem colon_not_mem_account : ':' ∉ account.toList :=
  Decimal.colon_not_mem (isAccount_iff.1 form.numbered).2

end ArnForm

theorem ofArn?_eq_some_iff :
    ofArn? text.toList = some stream ↔
      ∃ partition region account name, ArnForm text partition region account name ∧
        stream = ofRegion region account name := by
  unfold ofArn?
  constructor
  · intro read
    obtain ⟨rest, afterArn, read⟩ := Option.bind_eq_some_iff.1 read
    obtain ⟨⟨partition, rest₁⟩, cutPartition, read⟩ := Option.bind_eq_some_iff.1 read
    obtain ⟨⟨service, rest₂⟩, cutService, read⟩ := Option.bind_eq_some_iff.1 read
    obtain ⟨⟨region, rest₃⟩, cutRegion, read⟩ := Option.bind_eq_some_iff.1 read
    obtain ⟨⟨account, resource⟩, cutAccount, read⟩ := Option.bind_eq_some_iff.1 read
    obtain ⟨name, afterStream, read⟩ := Option.bind_eq_some_iff.1 read
    obtain ⟨rest₄, begins, read⟩ := Option.bind_eq_some_iff.1 read
    split at read
    · rename_i fits
      simp only [Bool.and_eq_true, decide_eq_true_eq, Bool.not_eq_true', List.isEmpty_eq_false_iff,
        List.all_eq_true] at fits
      obtain ⟨⟨⟨⟨isKinesis, located⟩, places⟩, numbered⟩, named⟩ := fits
      obtain ⟨spelledPartition, whole⟩ := splitFirst_eq_some_iff.1 cutPartition
      have spelled := dropBeginning_eq_some_iff.1 afterArn
      rw [spelledPartition, (splitFirst_eq_some_iff.1 cutService).1, (splitFirst_eq_some_iff.1 cutRegion).1,
        (splitFirst_eq_some_iff.1 cutAccount).1, dropBeginning_eq_some_iff.1 afterStream, isKinesis] at spelled
      refine ⟨String.ofList partition, String.ofList region, String.ofList account, String.ofList name,
        ⟨?_, ?_, by simpa, by simpa, by simpa, by simpa, by simpa⟩, ?_⟩
      · rw [← String.toList_inj, spelled]
        simp
      · exact ⟨rest₄, by simp [dropBeginning_eq_some_iff.1 begins]⟩
      · simpa [ofRegion] using (Option.some.inj read).symm
    · cases read
  · rintro ⟨partition, region, account, name, form, rfl⟩
    obtain ⟨rest, begins⟩ := form.begins
    rw [dropBeginning_eq_some_iff.2 form.toList_eq]
    simp only [Option.bind_eq_bind, Option.bind_some]
    rw [splitFirst_eq_some_iff.2 ⟨rfl, form.whole⟩]
    simp only [Option.bind_some]
    rw [splitFirst_eq_some_iff.2 ⟨rfl, by decide⟩]
    simp only [Option.bind_some]
    rw [splitFirst_eq_some_iff.2 ⟨rfl, form.colon_not_mem_region⟩]
    simp only [Option.bind_some]
    rw [splitFirst_eq_some_iff.2 ⟨rfl, form.colon_not_mem_account⟩]
    simp only [Option.bind_some]
    rw [dropBeginning_eq_some_iff.2 rfl, dropBeginning_eq_some_iff.2 begins.symm]
    simp [form.located, form.numbered, form.named, List.all_eq_true.2 form.places, ofRegion]

/-- The one form begins with a digit. -/
theorem EpochForm.isDigit_of_first {account name epoch : String} {first : Char} {others : List Char}
    (form : EpochForm text account name epoch) (begins : text.toList = first :: others) :
    first.isDigit = true := by
  cases digits : account.toList with
  | nil => exact absurd digits (Decimal.ne_nil_of_isDigits form.numbered)
  | cons digit more =>
    have spelled : digit :: (more ++ (":" ++ name ++ ":" ++ epoch).toList) = first :: others := by
      simpa [form.spelled, digits] using begins
    rw [← (List.cons.inj spelled).1]
    exact Decimal.isDigit_of_mem form.numbered (digits ▸ List.mem_cons_self)

/-- No text has both forms, for an ARN begins with a letter. -/
theorem EpochForm.not_arnForm {account name epoch partition region account' name' : String}
    (form : EpochForm text account name epoch) : ¬ArnForm text partition region account' name' := by
  intro other
  have isDigit := form.isDigit_of_first (other.toList_eq.trans (arnChars_first ..))
  exact absurd isDigit (by decide)

/-- The reader of identifiers with an account accepts the texts of the two forms. -/
theorem ofMulti_eq_ok_iff :
    ofMulti text = .ok stream ↔
      (∃ account name epoch, EpochForm text account name epoch ∧ stream = ofEpoch account name epoch) ∨
        ∃ partition region account name, ArnForm text partition region account name ∧
          stream = ofRegion region account name := by
  rw [← ofSerialized?_eq_some_iff, ← ofArn?_eq_some_iff]
  unfold ofMulti
  cases serialized : ofSerialized? text.toList with
  | none => cases ofArn? text.toList <;> simp
  | some found =>
    obtain ⟨account, name, epoch, form, -⟩ := ofSerialized?_eq_some_iff.1 serialized
    have notArn : ofArn? text.toList ≠ some stream := fun read => by
      obtain ⟨_, _, _, _, other, -⟩ := ofArn?_eq_some_iff.1 read
      exact form.not_arnForm other
    simp [notArn]

/-- The reader of identifiers without an account falls back on the plain name. -/
theorem ofSingle_eq_ok_iff :
    ofSingle text = .ok stream ↔
      text ≠ "" ∧ (ofArn? text.toList).getD { accountId := none, streamName := text, creationEpoch := none, region := none } = stream := by
  unfold ofSingle
  by_cases blank : text = ""
  · simp [blank]
  · cases ofArn? text.toList <;> simp [blank]

end StreamIdentifier

end LeaseFleet
