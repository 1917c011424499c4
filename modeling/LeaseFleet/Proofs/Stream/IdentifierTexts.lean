import LeaseFleet.Proofs.Stream.LeaseKeys

/-!
# What names a stream

The texts that the readers of stream identifiers accept, with what they make of each
(`texts_read_by_form`). An identifier that is built from its parts goes through the same reader: the parts
are joined to one text, and joined parts are taken apart where they were joined (`EpochForm.parts`). But
the joined text can be an ARN whose first colons are in the account, and then it is read as that ARN
(`ofParts_kept_unless_arn`).
-/

namespace LeaseFleet

namespace StreamIdentifier

variable {text account name epoch partition region : String} {stream : StreamIdentifier}

/-! ## The grammar of the readers -/

/-- The text consists of an account, a name and an epoch. -/
def HasEpochForm (text : String) : Prop :=
  ∃ account name epoch, EpochForm text account name epoch

/-- The text is the ARN of a stream. -/
def HasArnForm (text : String) : Prop :=
  ∃ partition region account name, ArnForm text partition region account name

theorem exists_ofMulti_iff :
    (∃ stream, ofMulti text = .ok stream) ↔ HasEpochForm text ∨ HasArnForm text := by
  constructor
  · rintro ⟨stream, read⟩
    rcases ofMulti_eq_ok_iff.1 read with ⟨_, _, _, form, -⟩ | ⟨_, _, _, _, form, -⟩
    · exact .inl ⟨_, _, _, form⟩
    · exact .inr ⟨_, _, _, _, form⟩
  · rintro (⟨_, _, _, form⟩ | ⟨_, _, _, _, form⟩)
    · exact ⟨_, form.read⟩
    · exact ⟨_, form.read⟩

theorem HasEpochForm.not_hasArnForm (form : HasEpochForm text) : ¬HasArnForm text := by
  obtain ⟨_, _, _, form⟩ := form
  rintro ⟨_, _, _, _, other⟩
  exact form.not_arnForm other

/-- The text that is rejected stands in the error. -/
theorem ofMulti_of_not_form (epochForm : ¬HasEpochForm text) (arnForm : ¬HasArnForm text) :
    ofMulti text = .error (.invalidStream ("unable to deserialize stream identifier from " ++ text)) := by
  cases read : ofMulti text with
  | ok stream => exact absurd (exists_ofMulti_iff.1 ⟨stream, read⟩) (by simp [epochForm, arnForm])
  | error reason =>
    unfold ofMulti at read
    split at read
    · cases read
    · exact read.symm

theorem ofSingle_of_not_arnForm (isText : text ≠ "") (arnForm : ¬HasArnForm text) :
    ofSingle text = .ok { accountId := none, streamName := text, creationEpoch := none, region := none } := by
  have plain : ofArn? text.toList = none := by
    refine Option.eq_none_iff_forall_ne_some.2 fun stream read => ?_
    obtain ⟨_, _, _, _, form, -⟩ := ofArn?_eq_some_iff.1 read
    exact arnForm ⟨_, _, _, _, form⟩
  exact ofSingle_eq_ok_iff.2 ⟨isText, by rw [plain, Option.getD_none]⟩

theorem exists_ofSingle_iff : (∃ stream, ofSingle text = .ok stream) ↔ text ≠ "" := by
  constructor
  · rintro ⟨stream, read⟩
    exact (ofSingle_eq_ok_iff.1 read).1
  · intro isText
    exact ⟨_, ofSingle_eq_ok_iff.2 ⟨isText, rfl⟩⟩

/-- The readers accept exactly their grammar. With an account a text is read if it has one of the two
forms, and no text has both; without one every text is read but the empty one, as an ARN if it is one and
else as a name. The fields are the parts of the text, and an epoch is kept if it fits a 64-bit word. -/
theorem texts_read_by_form (text : String) :
    ((∃ stream, ofMulti text = .ok stream) ↔ HasEpochForm text ∨ HasArnForm text) ∧
      ¬(HasEpochForm text ∧ HasArnForm text) ∧
      (∀ account name epoch, EpochForm text account name epoch →
        ofMulti text = .ok
          { accountId := some account
            streamName := name
            creationEpoch :=
              if Decimal.ofDigits epoch.toList < Decimal.wordLimit then some (Decimal.ofDigits epoch.toList)
              else none
            region := none }) ∧
      (∀ partition region account name, ArnForm text partition region account name →
        ofMulti text = ofSingle text ∧ ofSingle text = .ok
          { accountId := some account, streamName := name, creationEpoch := none, region := some region }) ∧
      ((∃ stream, ofSingle text = .ok stream) ↔ text ≠ "") ∧
      (text ≠ "" → ¬HasArnForm text → ofSingle text = .ok
        { accountId := none, streamName := text, creationEpoch := none, region := none }) := by
  refine ⟨exists_ofMulti_iff, fun forms => forms.1.not_hasArnForm forms.2, ?_, ?_, exists_ofSingle_iff,
    ofSingle_of_not_arnForm⟩
  · intro account name epoch form
    exact form.read
  · intro partition region account name form
    exact ⟨form.read.trans form.readSingle.symm, form.readSingle⟩

/-- A text of each form, the name in the ARN with a colon; without an account the first one is a name. -/
theorem texts_read_by_form_of_each :
    ofMulti "123456789012:orders:007" = .ok
        { accountId := some "123456789012", streamName := "orders", creationEpoch := some 7,
          region := none } ∧
      ofSingle "arn:aws-cn:kinesis:cn-north-1:123456789012:stream/a:1" = .ok
        { accountId := some "123456789012", streamName := "a:1", creationEpoch := none,
          region := some "cn-north-1" } ∧
      ofSingle "123456789012:orders:007" = .ok
        { accountId := none, streamName := "123456789012:orders:007", creationEpoch := none,
          region := none } := by
  have dated : EpochForm "123456789012:orders:007" "123456789012" "orders" "007" := by
    constructor <;> decide +kernel
  have located : ArnForm "arn:aws-cn:kinesis:cn-north-1:123456789012:stream/a:1" "aws-cn" "cn-north-1"
      "123456789012" "a:1" := by
    constructor
    case places => exact List.all_eq_true.1 (by decide +kernel)
    all_goals decide +kernel
  obtain ⟨-, apart, ofDated, -, -, plain⟩ := texts_read_by_form "123456789012:orders:007"
  obtain ⟨-, -, -, ofLocated, -, -⟩ :=
    texts_read_by_form "arn:aws-cn:kinesis:cn-north-1:123456789012:stream/a:1"
  have noArn : ¬HasArnForm "123456789012:orders:007" := fun arn => apart ⟨⟨_, _, _, dated⟩, arn⟩
  refine ⟨?_, (ofLocated _ _ _ _ located).2, plain (by decide) noArn⟩
  have number : Decimal.ofDigits "007".toList = 7 := by decide +kernel
  rw [ofDated _ _ _ dated, number]
  rfl

/-! ## Built from parts -/

/-- The text that the parts of an identifier are joined to. -/
def joined (account name : String) (epoch : UInt64) : String :=
  account ++ ":" ++ name ++ ":" ++ toString epoch.toNat

/-- The account is a number and the name has no colon, so that the parts of their text can be told apart. -/
structure Separable (account name : String) : Prop where
  numbered : Decimal.isDigits account.toList = true
  named : name ≠ ""
  whole : ':' ∉ name.toList

section

variable {epoch : UInt64}

theorem Separable.epochForm (separable : Separable account name) :
    EpochForm (joined account name epoch) account name (toString epoch.toNat) where
  spelled := rfl
  numbered := separable.numbered
  named := separable.named
  whole := separable.whole
  dated := Decimal.isDigits_toString _

/-- Texts that are the same around a colon, the only one on the right, have the same parts. -/
theorem cut_of_count {part rest part' rest' : List Char}
    (same : part ++ ':' :: rest = part' ++ ':' :: rest') (lacks' : ':' ∉ part') (lacksRest' : ':' ∉ rest') :
    part = part' ∧ rest = rest' := by
  have counts := congrArg (List.count ':') same
  simp only [List.count_append, List.count_cons_self, List.count_eq_zero.2 lacks',
    List.count_eq_zero.2 lacksRest'] at counts
  have lacks : ':' ∉ part := List.count_eq_zero.1 (by omega)
  exact cut_unique same lacks lacks'

/-- Joined parts are taken apart where they were joined. -/
theorem EpochForm.parts {account' name' epoch' : String}
    (form : EpochForm (joined account name epoch) account' name' epoch') :
    account = account' ∧ name = name' ∧ toString epoch.toNat = epoch' := by
  obtain ⟨sameFront, sameEpoch⟩ := key_cut form.spelled
    (Decimal.colon_not_mem (Decimal.isDigits_toString _)) (Decimal.colon_not_mem form.dated)
  have front : account.toList ++ ':' :: name.toList = account'.toList ++ ':' :: name'.toList := by
    simpa using congrArg String.toList sameFront
  obtain ⟨sameAccount, sameName⟩ := cut_of_count front (Decimal.colon_not_mem form.numbered) form.whole
  exact ⟨String.toList_inj.1 sameAccount, String.toList_inj.1 sameName, sameEpoch⟩

theorem hasEpochForm_joined_iff : HasEpochForm (joined account name epoch) ↔ Separable account name := by
  constructor
  · rintro ⟨_, _, _, form⟩
    obtain ⟨rfl, rfl, -⟩ := form.parts
    exact ⟨form.numbered, form.named, form.whole⟩
  · intro separable
    exact ⟨_, _, _, separable.epochForm⟩

/-- The stream with exactly the given parts. -/
def ofGiven (account name : String) (epoch : UInt64) : StreamIdentifier :=
  { accountId := some account, streamName := name, creationEpoch := some epoch.toNat, region := none }

theorem Separable.ofParts (separable : Separable account name) :
    ofParts account name epoch.toNat = .ok (ofGiven account name epoch) := by
  have number : Decimal.ofDigits (toString epoch.toNat).toList = epoch.toNat := by
    simpa using Decimal.ofDigits_toDigits _
  have fits : Decimal.ofDigits (toString epoch.toNat).toList < Decimal.wordLimit := by
    rw [number]
    exact epoch.toNat_lt
  refine (separable.epochForm.read : ofMulti (joined account name epoch) = _).trans ?_
  rw [ofEpoch, epochOfDigits_of_lt fits, number, ofGiven]

/-- A joined text is an ARN only if the account is the beginning of one. -/
theorem ArnForm.account_of_joined {account' name' : String}
    (form : ArnForm (joined account name epoch) partition region account' name') :
    account = "arn" ∨ "arn:".toList <+: account.toList := by
  have same : account.toList ++ ':' :: (name.toList ++ ':' :: (toString epoch.toNat).toList) =
      "arn".toList ++ ':' :: (arnChars partition.toList region.toList account'.toList name'.toList).drop 4 := by
    have chars := form.toList_eq
    simp only [joined, String.toList_append, List.append_assoc] at chars
    simpa [arnChars] using chars
  cases cut : splitFirst ':' account.toList with
  | none =>
    have lacks := splitFirst_eq_none_iff.1 cut
    exact .inl (String.toList_inj.1 (cut_unique same lacks (by simp)).1)
  | some found =>
    obtain ⟨part, rest⟩ := found
    obtain ⟨spelled, lacks⟩ := splitFirst_eq_some_iff.1 cut
    rw [spelled, List.append_assoc, List.cons_append] at same
    obtain ⟨rfl, -⟩ := cut_unique same lacks (by simp)
    exact .inr ⟨rest, by simp [spelled]⟩

/-- The account of the ARN is not the one given, which begins with a letter. -/
theorem ArnForm.account_ne_of_joined {account' name' : String}
    (form : ArnForm (joined account name epoch) partition region account' name') : account' ≠ account := by
  rintro rfl
  have digits := (isAccount_iff.1 form.numbered).2
  rcases form.account_of_joined with rfl | begins
  · exact absurd digits (by decide)
  · have letter : ( 'a' ).isDigit = true := Decimal.isDigit_of_mem digits (begins.subset (by simp))
    exact absurd letter (by decide)

end

/-- An identifier that is built from its parts has exactly these parts, unless their text is an ARN. It can
be built from an account of digits and a name without a colon, and from no other parts but those whose text
is an ARN that begins with the account: then it is the stream of that ARN, with another account, a region
and no epoch. -/
theorem ofParts_kept_unless_arn (account name : String) (epoch : UInt64) :
    (Separable account name → ofParts account name epoch.toNat = .ok (ofGiven account name epoch)) ∧
      (¬Separable account name → ¬HasArnForm (joined account name epoch) →
        ofParts account name epoch.toNat = .error
          (.invalidStream ("unable to deserialize stream identifier from " ++ joined account name epoch))) ∧
      (∀ stream, ofParts account name epoch.toNat = .ok stream →
        (stream.accountId = some account ∧ stream.streamName = name ∧
            stream.creationEpoch = some epoch.toNat ∧ stream.region = none ↔
          ¬HasArnForm (joined account name epoch))) ∧
      (HasArnForm (joined account name epoch) →
        (account = "arn" ∨ "arn:".toList <+: account.toList) ∧
          ∃ stream, ofParts account name epoch.toNat = .ok stream ∧ stream.accountId ≠ some account ∧
            stream.creationEpoch = none ∧ stream.region.isSome = true) := by
  refine ⟨Separable.ofParts, ?_, ?_, ?_⟩
  · intro separable arn
    exact ofMulti_of_not_form (mt hasEpochForm_joined_iff.1 separable) arn
  · intro stream built
    constructor
    · rintro ⟨-, -, -, noRegion⟩ ⟨_, _, _, _, arn⟩
      obtain rfl := Except.ok.inj (arn.read.symm.trans built)
      cases noRegion
    · intro arn
      have form := (exists_ofMulti_iff.1 ⟨stream, built⟩).resolve_right arn
      obtain rfl := Except.ok.inj ((hasEpochForm_joined_iff.1 form).ofParts.symm.trans built)
      exact ⟨rfl, rfl, rfl, rfl⟩
  · rintro ⟨_, _, _, _, arn⟩
    have differs := arn.account_ne_of_joined
    exact ⟨arn.account_of_joined, _, arn.read, mt Option.some.inj differs, rfl, rfl⟩

/-- An ARN cut at its first colon: what is built has the account of the ARN and not the one given, and the
epoch has become the end of the name. -/
theorem ofParts_kept_unless_arn_of_pieces :
    ∃ stream, ofParts "arn" "aws:kinesis:us-east-1:123456789012:stream/x" 5 = .ok stream ∧
      stream.accountId ≠ some "arn" ∧ stream.creationEpoch = none := by
  have arn : ArnForm (joined "arn" "aws:kinesis:us-east-1:123456789012:stream/x" 5) "aws" "us-east-1"
      "123456789012" "x:5" := by
    constructor
    case places => exact List.all_eq_true.1 (by decide +kernel)
    all_goals decide +kernel
  obtain ⟨-, -, -, ofArn⟩ := ofParts_kept_unless_arn "arn" "aws:kinesis:us-east-1:123456789012:stream/x" 5
  obtain ⟨-, stream, built, account, noEpoch, -⟩ := ofArn ⟨_, _, _, _, arn⟩
  exact ⟨stream, built, account, noEpoch⟩

end StreamIdentifier

end LeaseFleet
