import LeaseFleet.Json.Reader
import LeaseFleet.Json.Writer
import LeaseFleet.Proofs.Stream.Spelling

/-!
# Tokens of JSON text

A value is followed by nothing, by a comma or by a closing bracket. In front of such a text the reader
takes a quoted text (`readQuoted_quoted`) and a whole number (`readNumber_toString`) back as they were
written, and it takes any other number as far as it takes it alone (`readNumber_append`).
-/

namespace LeaseFleet.Json

/-- What may follow a value in compact text. -/
def AfterValue : List Char → Prop
  | [] => True
  | c :: _ => c = ',' ∨ c = ']' ∨ c = '\x7d'

theorem AfterValue.comma (rest : List Char) : AfterValue (',' :: rest) := .inl rfl

theorem AfterValue.bracket (rest : List Char) : AfterValue (']' :: rest) := .inr (.inl rfl)

theorem AfterValue.brace (rest : List Char) : AfterValue ('\x7d' :: rest) := .inr (.inr rfl)

theorem AfterValue.not_continued {c : Char} {rest : List Char} (after : AfterValue (c :: rest)) :
    c.isDigit = false ∧ c ≠ '.' ∧ c ≠ 'e' ∧ c ≠ 'E' := by
  obtain rfl | rfl | rfl := after <;> decide

/-- What continues a number in front of such a text belongs to the number. -/
theorem AfterValue.begins {c : Char} {text more rest : List Char} (after : AfterValue rest)
    (continues : c = '.' ∨ c = 'e' ∨ c = 'E') (same : text ++ rest = c :: more) :
    ∃ others, text = c :: others := by
  cases text with
  | nil =>
    obtain rfl : rest = c :: more := same
    obtain ⟨-, point, lower, upper⟩ := after.not_continued
    simp_all
  | cons d others => exact ⟨others, by rw [(List.cons.inj same).1]⟩

theorem AfterValue.skipBlanks_eq {rest : List Char} (after : AfterValue rest) : skipBlanks rest = rest := by
  cases rest with
  | nil => rfl
  | cons c rest => obtain rfl | rfl | rfl := after <;> rfl

/-! ## Blanks -/

@[simp] theorem skipBlanks_skipBlanks (text : List Char) :
    skipBlanks (skipBlanks text) = skipBlanks text := by
  induction text with
  | nil => rfl
  | cons c text ih =>
    by_cases blank : c = ' ' || c = '\n' || c = '\t' || c = '\r'
    · rw [skipBlanks, if_pos blank, ih]
    · rw [skipBlanks, if_neg blank, skipBlanks, if_neg blank]

theorem skipBlanks_append {text : List Char} (shown : skipBlanks text ≠ []) (rest : List Char) :
    skipBlanks (text ++ rest) = skipBlanks text ++ rest := by
  induction text with
  | nil => exact absurd rfl shown
  | cons c text ih =>
    by_cases blank : c = ' ' || c = '\n' || c = '\t' || c = '\r'
    · rw [skipBlanks, if_pos blank] at shown
      rw [List.cons_append, skipBlanks, if_pos blank, ih shown, skipBlanks, if_pos blank]
    · rw [List.cons_append, skipBlanks, if_neg blank, skipBlanks, if_neg blank, List.cons_append]

theorem skipBlanks_append_of_blank {text : List Char} (blank : skipBlanks text = []) (rest : List Char) :
    skipBlanks (text ++ rest) = skipBlanks rest := by
  induction text with
  | nil => rfl
  | cons c text ih =>
    by_cases here : c = ' ' || c = '\n' || c = '\t' || c = '\r'
    · rw [skipBlanks, if_pos here] at blank
      rw [List.cons_append, skipBlanks, if_pos here, ih blank]
    · rw [skipBlanks, if_neg here] at blank
      cases blank

/-! ## Quoted texts -/

theorem hexValue?_digitChar : ∀ n < 16, hexValue? (Nat.digitChar n) = some n := by decide

theorem readUnicode_hexPair {c : Char} (control : c.toNat < 32) (rest : List Char) :
    readUnicode ('0' :: '0' :: hexPair c.toNat ++ rest) = some (c, rest) := by
  have high := hexValue?_digitChar (c.toNat / 16 % 16) (Nat.mod_lt _ (by decide))
  have low := hexValue?_digitChar (c.toNat % 16) (Nat.mod_lt _ (by decide))
  have zero : hexValue? '0' = some 0 := by decide
  have unit : ((0 * 16 + 0) * 16 + c.toNat / 16 % 16) * 16 + c.toNat % 16 = c.toNat := by omega
  have hex : readHex ('0' :: '0' :: hexPair c.toNat ++ rest) = some (c.toNat, rest) := by
    simp only [readHex, hexPair, List.cons_append, List.nil_append, zero, high, low, Option.bind_eq_bind,
      Option.bind_some, unit]
  have below : ¬(0xdc00 ≤ c.toNat) ∧ ¬(0xd800 ≤ c.toNat) := by omega
  simp only [readUnicode, hex, Option.bind_eq_bind, Option.bind_some, below.1, below.2, decide_false,
    Bool.false_and, Bool.false_eq_true, if_false, Char.ofNat_toNat]

/-- One written character is one step of the reader. -/
theorem readQuoted_escapeChar (c : Char) (seen : List Char) (fuel : Nat) (rest : List Char) :
    readQuoted seen (fuel + 1) (escapeChar c ++ rest) = readQuoted (c :: seen) fuel rest := by
  unfold escapeChar
  split
  next same => subst same; rfl
  split
  next same => subst same; rfl
  split
  next same => subst same; rfl
  split
  next same => subst same; rfl
  split
  next same => subst same; rfl
  split
  next same => rw [← Char.ofNat_toNat c, same]; rfl
  split
  next same => rw [← Char.ofNat_toNat c, same]; rfl
  split
  next control =>
    have escape : readEscape ('u' :: ('0' :: '0' :: hexPair c.toNat ++ rest)) = some (c, rest) :=
      readUnicode_hexPair control rest
    change readQuoted seen (fuel + 1) ('\\' :: 'u' :: ('0' :: '0' :: hexPair c.toNat ++ rest)) = _
    rw [readQuoted, escape]
  next notQuote notSlash _ _ _ _ _ printed =>
    rw [List.cons_append, List.nil_append, readQuoted]
    · rw [if_neg printed]
    · exact fun same => notQuote same
    · exact fun same => notSlash same

theorem readQuoted_escaped (text seen : List Char) {fuel : Nat} (enough : text.length < fuel)
    (rest : List Char) :
    readQuoted seen fuel (text.flatMap escapeChar ++ '"' :: rest) =
      some (String.ofList (seen.reverse ++ text), rest) := by
  induction text generalizing seen fuel with
  | nil =>
    obtain ⟨fuel, rfl⟩ := Nat.exists_eq_add_of_lt enough
    simp [readQuoted]
  | cons c text ih =>
    obtain ⟨fuel, rfl⟩ := Nat.exists_eq_add_of_lt enough
    have enough : text.length < text.length + 1 + fuel := by omega
    rw [List.flatMap_cons, List.append_assoc, readQuoted_escapeChar, List.length_cons, ih _ enough]
    simp

theorem escapeChar_ne_nil (c : Char) : escapeChar c ≠ [] := by
  unfold escapeChar
  grind

theorem length_le_escaped (text : List Char) : text.length ≤ (text.flatMap escapeChar).length := by
  induction text with
  | nil => exact Nat.le_refl 0
  | cons c text ih =>
    have shown := List.length_pos_iff.2 (escapeChar_ne_nil c)
    rw [List.flatMap_cons, List.length_append, List.length_cons]
    omega

theorem toList_quote (text : String) :
    (quote text).toList = '"' :: (text.toList.flatMap escapeChar ++ ['"']) := by
  rw [quote, String.toList_ofList]

/-- The reader takes a quoted text back, whatever its characters are. -/
theorem readQuoted_quoted (text : String) (rest : List Char) :
    readQuoted [] ((text.toList.flatMap escapeChar ++ '"' :: rest).length + 1)
      (text.toList.flatMap escapeChar ++ '"' :: rest) = some (text, rest) := by
  have enough := length_le_escaped text.toList
  rw [readQuoted_escaped _ _ (by rw [List.length_append]; omega)]
  simp

/-! ## Whole numbers -/

section

variable {text rest : List Char}

theorem takeWhile_isDigit_append (after : AfterValue rest) (text : List Char) :
    (text ++ rest).takeWhile Char.isDigit = text.takeWhile Char.isDigit := by
  induction text with
  | nil =>
    cases rest with
    | nil => rfl
    | cons c rest => simp [after.not_continued.1]
  | cons c text ih => simp only [List.cons_append, List.takeWhile_cons, ih]

theorem dropWhile_isDigit_append (after : AfterValue rest) (text : List Char) :
    (text ++ rest).dropWhile Char.isDigit = text.dropWhile Char.isDigit ++ rest := by
  induction text with
  | nil =>
    cases rest with
    | nil => rfl
    | cons c rest => simp [after.not_continued.1]
  | cons c text ih =>
    simp only [List.cons_append, List.dropWhile_cons, ih]
    split <;> rfl

theorem takeWord_append (after : AfterValue rest) (text : List Char) (value taken : Nat) :
    takeWord value taken (text ++ rest) =
      ((takeWord value taken text).1, (takeWord value taken text).2.1,
        (takeWord value taken text).2.2 ++ rest) := by
  induction text generalizing value taken with
  | nil =>
    cases rest with
    | nil => rfl
    | cons c rest => simp [takeWord, after.not_continued.1]
  | cons c text ih =>
    simp only [List.cons_append, takeWord, ih]
    split <;> rfl

theorem le_foldl_digits (digits : List Char) (value : Nat) :
    value ≤ digits.foldl (fun n c => 10 * n + Decimal.digitValue c) value := by
  induction digits generalizing value with
  | nil => exact Nat.le_refl _
  | cons c digits ih =>
    have := ih (10 * value + Decimal.digitValue c)
    rw [List.foldl_cons]
    omega

/-- Digits that fit a word are taken to the last one. -/
theorem takeWord_digits {digits : List Char} (shown : ∀ c ∈ digits, c.isDigit = true) (value taken : Nat)
    (fits : digits.foldl (fun n c => 10 * n + Decimal.digitValue c) value < Decimal.wordLimit) :
    takeWord value taken digits =
      (digits.foldl (fun n c => 10 * n + Decimal.digitValue c) value, taken + digits.length, []) := by
  induction digits generalizing value taken with
  | nil => rfl
  | cons c digits ih =>
    have here : c.isDigit = true := shown c List.mem_cons_self
    have below := Nat.lt_of_le_of_lt (le_foldl_digits digits (10 * value + Decimal.digitValue c)) fits
    rw [takeWord, if_pos (by simpa [here] using below),
      ih (fun c mem => shown c (List.mem_cons_of_mem _ mem)) _ _ fits, List.foldl_cons, List.length_cons,
      Nat.add_right_comm, Nat.add_assoc]

/-- No number but zero is written with a zero in front. -/
theorem head?_toDigits_ne_zero {n : Nat} (positive : 0 < n) : (Nat.toDigits 10 n).head? ≠ some '0' := by
  induction n using Nat.strongRecOn with
  | _ n ih =>
    by_cases small : n < 10
    · rw [Nat.toDigits_of_lt_base small]
      have digit : ∀ n < 10, 0 < n → [Nat.digitChar n].head? ≠ some '0' := by decide
      exact digit n small positive
    · obtain ⟨first, others, shown⟩ :=
        List.exists_cons_of_ne_nil (Nat.toDigits_ne_nil (b := 10) (n := n / 10))
      have front := ih (n / 10) (by omega) (by omega)
      rw [Nat.toDigits_of_base_le (by decide) (by omega), shown]
      rwa [shown] at front

theorem toDigits_no_leading_zero (n : Nat) :
    ¬((Nat.toDigits 10 n).head? = some '0' ∧ 1 < (Nat.toDigits 10 n).length) := by
  rintro ⟨zero, long⟩
  cases n with
  | zero => simp at long
  | succ n => exact head?_toDigits_ne_zero n.succ_pos zero

theorem readTail_of_after (after : AfterValue rest) (n : Nat) : readTail n 0 rest = some (none, rest) := by
  cases rest with
  | nil => rfl
  | cons c rest => obtain rfl | rfl | rfl := after <;> rfl

/-- The digits of a number that fits a word are read back as that number. -/
theorem readNumber_toDigits (after : AfterValue rest) (minus : Bool) {n : Nat}
    (fits : n < Decimal.wordLimit) :
    readNumber minus (Nat.toDigits 10 n ++ rest) = some (wholeNumber minus n, rest) := by
  have digits : ∀ c ∈ Nat.toDigits 10 n, c.isDigit = true := fun c =>
    Decimal.isDigit_of_mem (Decimal.isDigits_toDigits n)
  have shown : (Nat.toDigits 10 n ++ rest).takeWhile Char.isDigit = Nat.toDigits 10 n := by
    have none_left : rest.takeWhile Char.isDigit = [] := takeWhile_isDigit_append after []
    rw [List.takeWhile_append_of_pos digits, none_left, List.append_nil]
  have value : takeWord 0 0 (Nat.toDigits 10 n) = (n, (Nat.toDigits 10 n).length, []) := by
    have spelled : (Nat.toDigits 10 n).foldl (fun n c => 10 * n + Decimal.digitValue c) 0 = n :=
      Decimal.ofDigits_toDigits n
    rw [takeWord_digits digits 0 0 (by rwa [spelled]), spelled, Nat.zero_add]
  have allowed := toDigits_no_leading_zero n
  simp only [readNumber, shown, value, List.drop_left, Nat.sub_self, Int.ofNat_zero, readTail_of_after after]
  rw [if_neg]
  simpa [Nat.toDigits_ne_nil] using allowed

theorem readNumber_toString (after : AfterValue rest) (minus : Bool) {n : Nat}
    (fits : n < Decimal.wordLimit) :
    readNumber minus ((toString n).toList ++ rest) = some (wholeNumber minus n, rest) := by
  have written : (toString n).toList = Nat.toDigits 10 n := by simp
  rw [written, readNumber_toDigits after minus fits]

end

/-! ## Other numbers

What follows a value does not prolong a number, so a number is read in front of it as it is read
alone.
-/

section

variable {text rest left : List Char}

theorem drop_shown_append (text rest : List Char) :
    (text ++ rest).drop (text.takeWhile Char.isDigit).length =
      text.drop (text.takeWhile Char.isDigit).length ++ rest :=
  List.drop_append_of_le_length (List.takeWhile_prefix _).length_le

/-- The digits of an exponent, what they make of the number, and the rest. -/
theorem exponentDigits_append (after : AfterValue rest) (scaled : Nat → Option Float) {x : Float}
    (read : (if (text.takeWhile Char.isDigit).isEmpty then none
      else (scaled (Decimal.ofDigits (text.takeWhile Char.isDigit))).map fun x =>
        (x, text.drop (text.takeWhile Char.isDigit).length)) = some (x, left)) :
    (if ((text ++ rest).takeWhile Char.isDigit).isEmpty then none
      else (scaled (Decimal.ofDigits ((text ++ rest).takeWhile Char.isDigit))).map fun x =>
        (x, (text ++ rest).drop ((text ++ rest).takeWhile Char.isDigit).length)) =
      some (x, left ++ rest) := by
  rw [takeWhile_isDigit_append after, drop_shown_append]
  split at read
  next => cases read
  next shown =>
    rw [if_neg shown]
    obtain ⟨y, found, same⟩ := Option.map_eq_some_iff.1 read
    cases same
    rw [found, Option.map_some]

theorem readExponent_append (after : AfterValue rest) {significand : Nat} {exponent : Int} {x : Float}
    (read : readExponent significand exponent text = some (x, left)) :
    readExponent significand exponent (text ++ rest) = some (x, left ++ rest) := by
  cases text with
  | nil => cases read
  | cons c text =>
    by_cases minus : c = '-'
    · subst minus
      exact exponentDigits_append after (fun value => scale significand (exponent - value)) read
    by_cases plus : c = '+'
    · subst plus
      exact exponentDigits_append after (fun value => scale significand (exponent + value)) read
    have unsigned (others : List Char) : readExponent significand exponent (c :: others) =
        (if ((c :: others).takeWhile Char.isDigit).isEmpty then none
          else (scale significand (exponent + Decimal.ofDigits ((c :: others).takeWhile Char.isDigit))).map
            fun x => (x, (c :: others).drop ((c :: others).takeWhile Char.isDigit).length)) := by
      unfold readExponent
      split
      rename_i down digits sign
      split at sign
      next same => exact absurd (List.cons.inj same).1 minus
      next same => exact absurd (List.cons.inj same).1 plus
      next => cases sign; rfl
    rw [List.cons_append, unsigned]
    exact exponentDigits_append after (fun value => scale significand (exponent + value))
      (unsigned text ▸ read)

/-- The rest of a number that has an exponent, and the given reading of one that has none. -/
def exponentOr (significand : Nat) (exponent : Int)
    (ending : List Char → Option (Option Float × List Char)) :
    List Char → Option (Option Float × List Char)
  | 'e' :: more | 'E' :: more =>
    (readExponent significand exponent more).map fun (x, rest) => (some x, rest)
  | text => ending text

theorem exponentOr_unmarked (significand : Nat) (exponent : Int)
    {ending : List Char → Option (Option Float × List Char)} {text : List Char}
    (lower : ∀ more, text ≠ 'e' :: more) (upper : ∀ more, text ≠ 'E' :: more) :
    exponentOr significand exponent ending text = ending text := by
  unfold exponentOr
  split
  next => exact absurd rfl (lower _)
  next => exact absurd rfl (upper _)
  next => rfl

theorem exponentOr_append (after : AfterValue rest) {significand : Nat} {exponent : Int}
    {ending : List Char → Option (Option Float × List Char)} {x : Option Float}
    (ends : ∀ {text left}, ending text = some (x, left) → ending (text ++ rest) = some (x, left ++ rest))
    (read : exponentOr significand exponent ending text = some (x, left)) :
    exponentOr significand exponent ending (text ++ rest) = some (x, left ++ rest) := by
  have marked {more : List Char}
      (read : ((readExponent significand exponent more).map fun (x, rest) => (some x, rest)) = some (x, left)) :
      ((readExponent significand exponent (more ++ rest)).map fun (x, rest) => (some x, rest)) =
        some (x, left ++ rest) := by
    obtain ⟨⟨y, left⟩, found, same⟩ := Option.map_eq_some_iff.1 read
    cases same
    rw [readExponent_append after found, Option.map_some]
  by_cases lower : ∃ more, text = 'e' :: more
  · obtain ⟨more, rfl⟩ := lower
    exact marked read
  by_cases upper : ∃ more, text = 'E' :: more
  · obtain ⟨more, rfl⟩ := upper
    exact marked read
  rw [exponentOr_unmarked _ _ (fun more same => lower ⟨more, same⟩)
    fun more same => upper ⟨more, same⟩] at read
  rw [exponentOr_unmarked _ _ (fun more same => lower (after.begins (.inr (.inl rfl)) same))
    fun more same => upper (after.begins (.inr (.inr rfl)) same)]
  exact ends read

/-- A number with a fraction, once its digits are scaled. -/
def scaledEnd (significand : Nat) (exponent : Int) (text : List Char) : Option (Option Float × List Char) :=
  (scale significand exponent).map fun x => (some x, text)

theorem scaledEnd_append {significand : Nat} {exponent : Int} {x : Option Float}
    (read : scaledEnd significand exponent text = some (x, left)) :
    scaledEnd significand exponent (text ++ rest) = some (x, left ++ rest) := by
  obtain ⟨y, found, same⟩ := Option.map_eq_some_iff.1 read
  cases same
  rw [scaledEnd, found, Option.map_some]

theorem readTail_point (significand : Nat) (exponent : Int) {d : Char} (digit : d.isDigit = true)
    (text : List Char) :
    readTail significand exponent ('.' :: d :: text) =
      exponentOr (takeWord significand 0 (d :: text)).1 (exponent - (takeWord significand 0 (d :: text)).2.1)
        (scaledEnd (takeWord significand 0 (d :: text)).1 (exponent - (takeWord significand 0 (d :: text)).2.1))
        ((takeWord significand 0 (d :: text)).2.2.dropWhile Char.isDigit) := by
  have shown : ((d :: text).head?.any Char.isDigit) = true := by simpa using digit
  rw [readTail, if_pos shown]
  dsimp only
  split
  next same => rw [same]; rfl
  next same => rw [same]; rfl
  next lower upper => rw [exponentOr_unmarked _ _ lower upper]; rfl

theorem readTail_pointless (significand : Nat) (exponent : Int) {text : List Char}
    (pointless : ∀ others, text ≠ '.' :: others) :
    readTail significand exponent text =
      exponentOr significand exponent
        (fun text => if exponent = 0 then some (none, text) else scaledEnd significand exponent text) text := by
  rw [readTail.eq_def]
  split
  next => exact absurd rfl (pointless _)
  next => rfl
  next => rfl
  next lower upper => rw [exponentOr_unmarked _ _ lower upper]; rfl

theorem readTail_append (after : AfterValue rest) {significand : Nat} {exponent : Int} {x : Option Float}
    (read : readTail significand exponent text = some (x, left)) :
    readTail significand exponent (text ++ rest) = some (x, left ++ rest) := by
  by_cases point : ∃ others, text = '.' :: others
  · obtain ⟨others, rfl⟩ := point
    cases others with
    | nil => cases read
    | cons d others =>
      by_cases digit : d.isDigit = true
      · rw [readTail_point _ _ digit] at read
        have taken := takeWord_append after (d :: others) significand 0
        rw [List.cons_append] at taken
        rw [List.cons_append, List.cons_append, readTail_point _ _ digit, taken,
          dropWhile_isDigit_append after]
        exact exponentOr_append after scaledEnd_append read
      · rw [readTail, if_neg (by simpa using digit)] at read
        cases read
  · have still : ∀ others, text ++ rest ≠ '.' :: others :=
      fun others same => point (after.begins (.inl rfl) same)
    rw [readTail_pointless _ _ fun others same => point ⟨others, same⟩] at read
    rw [readTail_pointless _ _ still]
    refine exponentOr_append after (fun {text left} read => ?_) read
    by_cases whole : exponent = 0
    · rw [if_pos whole] at read ⊢
      cases read
      rfl
    · rw [if_neg whole] at read ⊢
      exact scaledEnd_append read

/-- A number is read in front of what may follow a value as it is read alone. -/
theorem readNumber_append (after : AfterValue rest) {minus : Bool} {json : Json}
    (read : readNumber minus text = some (json, left)) :
    readNumber minus (text ++ rest) = some (json, left ++ rest) := by
  rw [readNumber, takeWhile_isDigit_append after, drop_shown_append]
  rw [readNumber] at read
  dsimp only at read ⊢
  split at read
  next => cases read
  next allowed =>
    rw [if_neg allowed]
    split at read
    next => cases read
    next found =>
      cases read
      rw [readTail_append after found]
    next found =>
      cases read
      rw [readTail_append after found]

end

end LeaseFleet.Json
