import LeaseFleet.Proofs.Stream.Spelling

/-!
# Reading what was written

A stream is stored under its serialization, which forgets the partition of an ARN and the zeros in
front of an epoch. The readers get the stream back from it (`serialized_streams_read_back`), unless
the epoch in the text was too large for a 64-bit word: then it is dropped, and what remains is written
as an ARN without a region, which no reader accepts (`identified_unless_overlong`).
-/

namespace LeaseFleet

namespace StreamIdentifier

variable {text account name epoch partition region : String} {stream : StreamIdentifier}

/-! ## Serializations -/

theorem epochOfDigits_of_lt {digits : List Char} (fits : Decimal.ofDigits digits < Decimal.wordLimit) :
    epochOfDigits digits = some (Decimal.ofDigits digits) := by
  simp [epochOfDigits, fits]

theorem epochOfDigits_of_le {digits : List Char} (large : Decimal.wordLimit ≤ Decimal.ofDigits digits) :
    epochOfDigits digits = none := by
  simp [epochOfDigits, Nat.not_lt.2 large]

theorem serialize_ofEpoch_of_lt (fits : Decimal.ofDigits epoch.toList < Decimal.wordLimit) :
    (ofEpoch account name epoch).serialize =
      account ++ ":" ++ name ++ ":" ++ toString (Decimal.ofDigits epoch.toList) := by
  simp [ofEpoch, serialize, epochOfDigits_of_lt fits]

theorem serialize_ofEpoch_of_le (large : Decimal.wordLimit ≤ Decimal.ofDigits epoch.toList) :
    (ofEpoch account name epoch).serialize = arnText "" account name := by
  simp [ofEpoch, serialize, epochOfDigits_of_le large]

theorem serialize_ofRegion : (ofRegion region account name).serialize = arnText region account name := rfl

/-! ## What the readers make of them -/

theorem EpochForm.read (form : EpochForm text account name epoch) :
    ofMulti text = .ok (ofEpoch account name epoch) :=
  ofMulti_eq_ok_iff.2 (.inl ⟨_, _, _, form, rfl⟩)

theorem ArnForm.read (form : ArnForm text partition region account name) :
    ofMulti text = .ok (ofRegion region account name) :=
  ofMulti_eq_ok_iff.2 (.inr ⟨_, _, _, _, form, rfl⟩)

/-- Every reader accepts an ARN. -/
theorem ArnForm.readSingle (form : ArnForm text partition region account name) :
    ofSingle text = .ok (ofRegion region account name) := by
  have isText : text ≠ "" := by
    rintro rfl
    have begins := form.toList_eq.trans (arnChars_first ..)
    simp at begins
  refine ofSingle_eq_ok_iff.2 ⟨isText, ?_⟩
  rw [ofArn?_eq_some_iff.2 ⟨_, _, _, _, form, rfl⟩, Option.getD_some]

/-- The same account and name with the number of the epoch, written without zeros in front. -/
theorem EpochForm.renumbered (form : EpochForm text account name epoch) (number : Nat) :
    EpochForm (account ++ ":" ++ name ++ ":" ++ toString number) account name (toString number) where
  spelled := rfl
  numbered := form.numbered
  named := form.named
  whole := form.whole
  dated := Decimal.isDigits_toString number

/-- The same ARN in the common partition. -/
theorem ArnForm.common (form : ArnForm text partition region account name) :
    ArnForm (arnText region account name) "aws" region account name where
  spelled := by
    rw [← String.toList_inj, toList_arnText]
    simp [arnChars]
  begins := List.prefix_refl _
  whole := by simp
  located := form.located
  places := form.places
  numbered := form.numbered
  named := form.named

/-- An epoch that fits is read back, whatever zeros were in front of it. -/
theorem EpochForm.read_serialize (form : EpochForm text account name epoch)
    (fits : Decimal.ofDigits epoch.toList < Decimal.wordLimit) :
    ofMulti (ofEpoch account name epoch).serialize = .ok (ofEpoch account name epoch) := by
  have number : Decimal.ofDigits (toString (Decimal.ofDigits epoch.toList)).toList =
      Decimal.ofDigits epoch.toList := by
    simpa using Decimal.ofDigits_toDigits _
  have same : epochOfDigits (toString (Decimal.ofDigits epoch.toList)).toList = epochOfDigits epoch.toList := by
    unfold epochOfDigits
    rw [number]
  rw [serialize_ofEpoch_of_lt fits, (form.renumbered _).read, ofEpoch, same, ofEpoch]

/-- An ARN without a region has neither form. -/
theorem not_read_of_blank_region (numbered : Decimal.isDigits account.toList = true) :
    ofMulti (arnText "" account name) ≠ .ok stream := by
  intro read
  rcases ofMulti_eq_ok_iff.1 read with ⟨_, _, _, form, -⟩ | ⟨_, _, _, _, form, -⟩
  · exact absurd (form.isDigit_of_first (toList_arnText.trans (arnChars_first ..))) (by decide)
  · have lacks : ':' ∉ "aws".toList ∧ ':' ∉ "".toList := by simp
    have parts := arn_unique (toList_arnText.symm.trans form.toList_eq) lacks.1 form.whole lacks.2
      form.colon_not_mem_region (Decimal.colon_not_mem numbered) form.colon_not_mem_account
    exact form.located (String.toList_inj.1 parts.1.symm)

/-! ## Round trips -/

/-- The creation epoch or the region of the stream is known. -/
def HasOrigin (stream : StreamIdentifier) : Prop :=
  stream.creationEpoch.isSome = true ∨ stream.region.isSome = true

/-- The text gives an epoch that does not fit a 64-bit word. -/
def Overlong (text : String) : Prop :=
  ∃ account name epoch, EpochForm text account name epoch ∧ Decimal.wordLimit ≤ Decimal.ofDigits epoch.toList

/-- A stream that was read with its account has kept the epoch or the region, or else its epoch was too
large. -/
theorem ofMulti_cases (read : ofMulti text = .ok stream) :
    (∃ account name epoch, EpochForm text account name epoch ∧ stream = ofEpoch account name epoch ∧
        Decimal.ofDigits epoch.toList < Decimal.wordLimit) ∨
      (∃ partition region account name, ArnForm text partition region account name ∧
        stream = ofRegion region account name) ∨
      ∃ account name epoch, EpochForm text account name epoch ∧ stream = ofEpoch account name epoch ∧
        Decimal.wordLimit ≤ Decimal.ofDigits epoch.toList := by
  rcases ofMulti_eq_ok_iff.1 read with ⟨account, name, epoch, form, same⟩ | arn
  · rcases Nat.lt_or_ge (Decimal.ofDigits epoch.toList) Decimal.wordLimit with fits | large
    · exact .inl ⟨account, name, epoch, form, same, fits⟩
    · exact .inr (.inr ⟨account, name, epoch, form, same, large⟩)
  · exact .inr (.inl arn)

/-- Of a stream whose epoch was too large only account and name are known. -/
theorem Overlong.not_hasOrigin (overlong : Overlong text) (read : ofMulti text = .ok stream) :
    ¬stream.HasOrigin := by
  obtain ⟨account, name, epoch, form, large⟩ := overlong
  obtain rfl := Except.ok.inj (form.read.symm.trans read)
  simp [HasOrigin, ofEpoch, epochOfDigits_of_le large]

theorem ofMulti_serialize (read : ofMulti text = .ok stream) (known : stream.HasOrigin) :
    ofMulti stream.serialize = .ok stream := by
  rcases ofMulti_cases read with
    ⟨_, _, _, form, rfl, fits⟩ | ⟨_, _, _, _, form, rfl⟩ | ⟨_, _, _, form, rfl, large⟩
  · exact form.read_serialize fits
  · exact form.common.read
  · exact absurd known (Overlong.not_hasOrigin ⟨_, _, _, form, large⟩ read)

/-- A stream without epoch and region is that of an epoch that was too large. -/
theorem eq_of_not_hasOrigin (read : ofMulti text = .ok stream) (unknown : ¬stream.HasOrigin) :
    ∃ account name, Decimal.isDigits account.toList = true ∧ stream.serialize = arnText "" account name ∧
      stream = { accountId := some account, streamName := name, creationEpoch := none, region := none } := by
  rcases ofMulti_cases read with
    ⟨_, _, _, _, rfl, fits⟩ | ⟨_, _, _, _, _, rfl⟩ | ⟨account, name, _, form, rfl, large⟩
  · exact absurd (.inl (by simp [ofEpoch, epochOfDigits_of_lt fits])) unknown
  · exact absurd (.inr rfl) unknown
  · refine ⟨account, name, form.numbered, serialize_ofEpoch_of_le large, ?_⟩
    rw [ofEpoch, epochOfDigits_of_le large]

theorem not_read_serialize {again : StreamIdentifier} (read : ofMulti text = .ok stream)
    (unknown : ¬stream.HasOrigin) : ofMulti stream.serialize ≠ .ok again := by
  obtain ⟨account, name, numbered, written, -⟩ := eq_of_not_hasOrigin read unknown
  exact written ▸ not_read_of_blank_region numbered

theorem ofSingle_serialize (read : ofSingle text = .ok stream) : ofSingle stream.serialize = .ok stream := by
  obtain ⟨isText, same⟩ := ofSingle_eq_ok_iff.1 read
  cases found : ofArn? text.toList with
  | none =>
    rw [found, Option.getD_none] at same
    subst same
    exact read
  | some arn =>
    obtain ⟨_, _, _, _, form, rfl⟩ := ofArn?_eq_some_iff.1 found
    rw [found, Option.getD_some] at same
    exact same ▸ form.common.readSingle

/-- Each reader gets back, from the text under which a stream is stored, the stream that it has read:
the one without an account always, the one with an account if the epoch or the region is known. An ARN
keeps all but its partition, whatever its name contains. -/
theorem serialized_streams_read_back (text : String) (stream : StreamIdentifier) :
    (ofSingle text = .ok stream → ofSingle stream.serialize = .ok stream) ∧
      (ofMulti text = .ok stream → stream.creationEpoch.isSome = true ∨ stream.region.isSome = true →
        ofMulti stream.serialize = .ok stream) ∧
      ∀ {partition region account name : String}, ArnForm text partition region account name →
        ofSingle text = .ok (ofRegion region account name) ∧
          ofMulti text = .ok (ofRegion region account name) ∧
            (ofRegion region account name).serialize = arnText region account name :=
  ⟨ofSingle_serialize, ofMulti_serialize, fun form => ⟨form.readSingle, form.read, serialize_ofRegion⟩⟩

/-- A stream with colons and slashes in its name, in another partition than the common one. -/
def northern : StreamIdentifier := ofRegion "cn-north-1" "123456789012" "a:b/c"

/-- The ARN is read again without its partition, by both readers. -/
theorem serialized_streams_read_back_from_other_partition :
    ofSingle northern.serialize = .ok northern ∧ ofMulti northern.serialize = .ok northern := by
  have form : ArnForm "arn:aws-cn:kinesis:cn-north-1:123456789012:stream/a:b/c" "aws-cn" "cn-north-1"
      "123456789012" "a:b/c" := by
    constructor
    case places => exact List.all_eq_true.1 (by decide +kernel)
    all_goals decide +kernel
  have same := serialized_streams_read_back "arn:aws-cn:kinesis:cn-north-1:123456789012:stream/a:b/c" northern
  exact ⟨same.1 (same.2.2 form).1, same.2.1 (same.2.2 form).2.1 (.inr rfl)⟩

/-- The stream carries its account, and either the epoch that the text gives or the region of the
ARN. -/
def Identified (text : String) (stream : StreamIdentifier) : Prop :=
  (∃ account name epoch, EpochForm text account name epoch ∧ stream.accountId = some account ∧
      stream.creationEpoch = some (Decimal.ofDigits epoch.toList) ∧ stream.region = none) ∨
    ∃ partition region account name, ArnForm text partition region account name ∧
      stream.accountId = some account ∧ stream.creationEpoch = none ∧ stream.region = some region

/-- A stream that was read with its account carries the epoch or the region of the text, and can be
read again from its serialization, exactly if the text gives no epoch that is too large. -/
theorem identified_unless_overlong {text : String} {stream : StreamIdentifier} (read : ofMulti text = .ok stream) :
    stream.accountId.isSome = true ∧ (Identified text stream ↔ ¬Overlong text) ∧
      ((∃ again, ofMulti stream.serialize = .ok again) ↔ ¬Overlong text) := by
  have hasAccount : stream.accountId.isSome = true := by
    rcases ofMulti_eq_ok_iff.1 read with ⟨_, _, _, _, rfl⟩ | ⟨_, _, _, _, _, rfl⟩ <;> rfl
  have identified (fits : ¬Overlong text) : Identified text stream := by
    rcases ofMulti_cases read with
      ⟨account, name, epoch, form, rfl, fits⟩ | ⟨partition, region, account, name, form, rfl⟩ | overlong
    · exact .inl ⟨account, name, epoch, form, rfl, epochOfDigits_of_lt fits, rfl⟩
    · exact .inr ⟨partition, region, account, name, form, rfl, rfl, rfl⟩
    · obtain ⟨account, name, epoch, form, -, large⟩ := overlong
      exact absurd ⟨account, name, epoch, form, large⟩ fits
  have known (carries : Identified text stream) : stream.HasOrigin := by
    rcases carries with ⟨_, _, _, _, _, epoch, _⟩ | ⟨_, _, _, _, _, _, _, region⟩
    · exact .inl (by rw [epoch]; rfl)
    · exact .inr (by rw [region]; rfl)
  refine ⟨hasAccount, ⟨fun carries overlong => ?_, identified⟩, ⟨?_, fun fits => ?_⟩⟩
  · exact overlong.not_hasOrigin read (known carries)
  · rintro ⟨again, readAgain⟩ overlong
    exact not_read_serialize read (overlong.not_hasOrigin read) readAgain
  · exact ⟨stream, ofMulti_serialize read (known (identified fits))⟩

/-- The first epoch that is too large: the text is accepted, but what was read carries neither epoch nor
region and cannot be read again. -/
theorem identified_unless_overlong_at_word_limit :
    ∃ stream, ofMulti "123456789012:orders:18446744073709551616" = .ok stream ∧
      ¬Identified "123456789012:orders:18446744073709551616" stream ∧
        ¬∃ again, ofMulti stream.serialize = .ok again := by
  have form : EpochForm "123456789012:orders:18446744073709551616" "123456789012" "orders"
      "18446744073709551616" := by
    constructor <;> decide +kernel
  have overlong : Overlong "123456789012:orders:18446744073709551616" :=
    ⟨_, _, _, form, by decide +kernel⟩
  obtain ⟨-, carries, again⟩ := identified_unless_overlong form.read
  exact ⟨_, form.read, fun identified => carries.1 identified overlong, fun readable => again.1 readable overlong⟩

end StreamIdentifier

end LeaseFleet
