import LeaseFleet.Proofs.Json.Tokens

/-!
# JSON text read back

A value whose numbers have a word, whose doubles are read back from their digits, and that is nested less
deep than the reader allows, is what the reader makes of its text (`read_write`). The induction is on the
value, in front of anything that may follow it.
-/

namespace LeaseFleet.Json

mutual

/-- Whether the reader can take the value back, `depth` levels of nesting being allowed. -/
def Faithful (depth : Nat) : Json → Prop
  | .natural n => n < Decimal.wordLimit
  | .negative n => 0 < n ∧ n ≤ Decimal.wordLimit / 2
  | .real x => read (write (.real x)) = some (.real x)
  | .array items => 1 < depth ∧ FaithfulItems (depth - 1) items
  | .object fields => 1 < depth ∧ FaithfulFields (depth - 1) fields
  | _ => True

def FaithfulItems (depth : Nat) : List Json → Prop
  | [] => True
  | item :: rest => Faithful depth item ∧ FaithfulItems depth rest

def FaithfulFields (depth : Nat) : List (String × Json) → Prop
  | [] => True
  | (_, value) :: rest => Faithful depth value ∧ FaithfulFields depth rest

end

theorem faithfulItems_iff {depth : Nat} {items : List Json} :
    FaithfulItems depth items ↔ ∀ item ∈ items, Faithful depth item := by
  induction items with
  | nil => simp [FaithfulItems]
  | cons item rest ih => simp [FaithfulItems, ih]

theorem faithfulFields_iff {depth : Nat} {fields : List (String × Json)} :
    FaithfulFields depth fields ↔ ∀ field ∈ fields, Faithful depth field.2 := by
  induction fields with
  | nil => simp [FaithfulFields]
  | cons field rest ih => simp [FaithfulFields, ih]

/-! ## The written characters -/

theorem toList_commaList_single (part : String) : (commaList [part]).toList = part.toList := by
  simp [commaList]

theorem toList_commaList_cons (part next : String) (parts : List String) :
    (commaList (part :: next :: parts)).toList = part.toList ++ ',' :: (commaList (next :: parts)).toList := by
  simp [commaList]

theorem toList_write_array (items : List Json) :
    (write (.array items)).toList = '[' :: ((commaList (writeItems items)).toList ++ [']']) := by
  simp [write]

theorem toList_write_object (fields : List (String × Json)) :
    (write (.object fields)).toList = '\x7b' :: ((commaList (writeFields fields)).toList ++ ['\x7d']) := by
  simp [write]

theorem toList_field (name : String) (value : Json) :
    (quote name ++ ":" ++ write value).toList =
      '"' :: (name.toList.flatMap escapeChar ++ '"' :: ':' :: (write value).toList) := by
  simp [toList_quote]

/-! ## Values -/

section

variable {depth fuel : Nat} {text rest left : List Char}

theorem readValue_skipBlanks (depth fuel : Nat) (text : List Char) :
    readValue depth fuel (skipBlanks text) = readValue depth fuel text := by
  cases fuel with
  | zero => rfl
  | succ fuel => simp only [readValue, skipBlanks_skipBlanks]

theorem readItems_skipBlanks (depth : Nat) (seen : List Json) (fuel : Nat) (text : List Char) :
    readItems depth seen fuel (skipBlanks text) = readItems depth seen fuel text := by
  cases fuel with
  | zero => rfl
  | succ fuel => simp only [readItems, readValue_skipBlanks]

theorem readFields_skipBlanks (depth : Nat) (seen : List (String × Json)) (fuel : Nat) (text : List Char) :
    readFields depth seen fuel (skipBlanks text) = readFields depth seen fuel text := by
  cases fuel with
  | zero => rfl
  | succ fuel => simp only [readFields, skipBlanks_skipBlanks]

theorem readValue_digit {d : Char} (digit : d.isDigit = true) (depth fuel : Nat) (text : List Char) :
    readValue depth (fuel + 1) (d :: text) = readNumber false (d :: text) := by
  have shown : skipBlanks (d :: text) = d :: text := by
    rw [skipBlanks, if_neg]
    simp only [Bool.or_eq_true, decide_eq_true_eq]
    rintro (((rfl | rfl) | rfl) | rfl) <;> cases digit
  rw [readValue, shown]
  split
  all_goals first | rfl | (next same => cases (List.cons.inj same).1; cases digit)

/-- No value starts with a closing bracket. -/
theorem readValue_bracket (depth fuel : Nat) (shown : skipBlanks text = ']' :: rest) :
    readValue depth fuel text = none := by
  cases fuel with
  | zero => rfl
  | succ fuel => rw [readValue, shown]; rfl

theorem isDigit_of_readNumber {minus : Bool} {result : Json × List Char}
    (read : readNumber minus text = some result) : ∃ d others, text = d :: others ∧ d.isDigit = true := by
  cases text with
  | nil => cases read
  | cons d others =>
    by_cases digit : d.isDigit = true
    · exact ⟨d, others, rfl, digit⟩
    · rw [readNumber, if_pos (by simp [digit])] at read
      cases read

theorem map_ne_real {α : Type} {made : α → Json × List Char} {found : Option α} {x : Float}
    (other : ∀ value, (made value).1 ≠ .real x) : found.map made ≠ some (.real x, left) := by
  cases found with
  | none => nofun
  | some value => exact fun same => other value (congrArg Prod.fst (Option.some.inj same))

/-- Where the reader finds a double, it found a number behind the blanks. -/
theorem readNumber_of_real {x : Float} (read : readValue depth fuel text = some (.real x, left)) :
    (∃ digits, skipBlanks text = '-' :: digits ∧ readNumber true digits = some (.real x, left)) ∨
      readNumber false (skipBlanks text) = some (.real x, left) := by
  cases fuel with
  | zero => cases read
  | succ fuel =>
    rw [readValue] at read
    split at read
    case h_1 => exact absurd read (map_ne_real nofun)
    case h_2 => exact absurd read (map_ne_real nofun)
    case h_3 => exact absurd read (map_ne_real nofun)
    case h_4 => exact absurd read (map_ne_real nofun)
    case h_5 digits shown => exact .inl ⟨digits, shown, read⟩
    case h_6 =>
      split at read
      · cases read
      split at read
      · cases read
      · exact absurd read (map_ne_real nofun)
    case h_7 =>
      split at read
      · cases read
      split at read
      · cases read
      · exact absurd read (map_ne_real nofun)
    case h_8 => exact .inr read

theorem readValue_real {x : Float} {fuel' : Nat} (read : readValue depth fuel text = some (.real x, left))
    (after : AfterValue rest) (depth' : Nat) :
    readValue depth' (fuel' + 1) (text ++ rest) = some (.real x, left ++ rest) := by
  obtain ⟨digits, shown, number⟩ | number := readNumber_of_real read
  · have behind : skipBlanks (text ++ rest) = '-' :: (digits ++ rest) := by
      rw [skipBlanks_append (by simp [shown]), shown, List.cons_append]
    rw [readValue, behind]
    exact readNumber_append after number
  · obtain ⟨d, others, shown, digit⟩ := isDigit_of_readNumber number
    rw [← readValue_skipBlanks, skipBlanks_append (by simp [shown]), shown, List.cons_append,
      readValue_digit digit, ← List.cons_append]
    exact readNumber_append after (shown ▸ number)

/-- A lossless double is read back in front of what may follow it. -/
theorem readValue_faithful_real {x : Float} (lossless : read (write (.real x)) = some (.real x))
    (after : AfterValue rest) (depth fuel : Nat) :
    ∃ left, readValue depth (fuel + 1) ((write (.real x)).toList ++ rest) = some (.real x, left) ∧
      skipBlanks left = rest := by
  rw [read] at lossless
  split at lossless
  next value left taken =>
    split at lossless
    next blank =>
      cases lossless
      refine ⟨left ++ rest, readValue_real taken after depth, ?_⟩
      rw [skipBlanks_append_of_blank (List.isEmpty_iff.1 blank), after.skipBlanks_eq]
    next => cases lossless
  next => cases lossless

theorem write_ne_nil {json : Json} (faithful : json.Faithful depth) : json.write.toList ≠ [] := by
  cases json with
  | null | string | array | object => simp [write, quote]
  | bool value => cases value <;> simp [write]
  | natural n => simp [write, Nat.toDigits_ne_nil]
  | negative n => simp [write]
  | real x =>
    intro empty
    have lossless : read (write (.real x)) = some (.real x) := faithful
    rw [String.toList_eq_nil_iff.1 empty] at lossless
    cases lossless

theorem readValue_natural {n : Nat} (fits : n < Decimal.wordLimit) (after : AfterValue rest)
    (depth fuel : Nat) :
    readValue depth (fuel + 1) ((write (.natural n)).toList ++ rest) = some (.natural n, rest) := by
  have number := readNumber_toString after false fits
  obtain ⟨d, others, shown, digit⟩ := isDigit_of_readNumber number
  rw [write, shown, readValue_digit digit, ← shown, number]
  rfl

theorem readValue_negative {n : Nat} (positive : 0 < n) (fits : n ≤ Decimal.wordLimit / 2)
    (after : AfterValue rest) (depth fuel : Nat) :
    readValue depth (fuel + 1) ((write (.negative n)).toList ++ rest) = some (.negative n, rest) := by
  have half : Decimal.wordLimit / 2 < Decimal.wordLimit := by decide
  have value : wholeNumber true n = .negative n := by
    rw [wholeNumber, if_neg (by decide), if_neg (by simp; omega)]
  rw [write, String.toList_append, List.append_assoc, ← value,
    ← readNumber_toString after true (Nat.lt_of_le_of_lt fits half)]
  rfl

theorem readValue_string (text : String) (rest : List Char) (depth fuel : Nat) :
    readValue depth (fuel + 1) ((write (.string text)).toList ++ rest) = some (.string text, rest) := by
  have quoted (text : List Char) : readValue depth (fuel + 1) ('"' :: text) =
      (readQuoted [] (text.length + 1) text).map fun result => (.string result.1, result.2) := rfl
  rw [write, toList_quote, List.cons_append, List.append_assoc, List.singleton_append, quoted,
    readQuoted_quoted, Option.map_some]

/-! ## Nested values -/

/-- Whether the reader takes the value back from its text, in front of anything that may follow it. -/
def ReadsBack (depth : Nat) (json : Json) : Prop :=
  ∀ (fuel : Nat) (rest : List Char), AfterValue rest → json.write.toList.length ≤ fuel →
    ∃ left, readValue depth fuel (json.write.toList ++ rest) = some (json, left) ∧ skipBlanks left = rest

theorem readValue_array {items : List Json} (nested : 1 < depth)
    (found : readItems (depth - 1) [] fuel text = some (items, rest)) :
    readValue depth (fuel + 1) ('[' :: text) = some (.array items, rest) := by
  have bracket : skipBlanks ('[' :: text) = '[' :: text := rfl
  rw [readValue]
  simp only [bracket, if_neg (Nat.not_le.2 nested)]
  split
  next closed =>
    cases fuel with
    | zero => cases found
    | succ fuel =>
      rw [readItems, readValue_bracket _ _ closed] at found
      cases found
  next => rw [readItems_skipBlanks, found, Option.map_some]

theorem readValue_object {fields : List (String × Json)} (nested : 1 < depth)
    (found : readFields (depth - 1) [] fuel text = some (fields, rest)) :
    readValue depth (fuel + 1) ('\x7b' :: text) = some (.object fields, rest) := by
  have brace : skipBlanks ('\x7b' :: text) = '\x7b' :: text := rfl
  rw [readValue]
  simp only [brace, if_neg (Nat.not_le.2 nested)]
  split
  next closed =>
    cases fuel with
    | zero => cases found
    | succ fuel =>
      simp only [readFields, closed] at found
      cases found
  next => rw [readFields_skipBlanks, found, Option.map_some]

/-- The items of an array are read back one after the other. -/
theorem readItems_write {item : Json} {items : List Json}
    (each : ∀ other ∈ item :: items, other.ReadsBack depth) (seen : List Json)
    (enough : (commaList (writeItems (item :: items))).toList.length < fuel) :
    readItems depth seen fuel ((commaList (writeItems (item :: items))).toList ++ ']' :: rest) =
      some (seen.reverse ++ item :: items, rest) := by
  induction items generalizing item seen fuel with
  | nil =>
    obtain ⟨fuel, rfl⟩ := Nat.exists_eq_add_of_lt enough
    rw [writeItems, writeItems, toList_commaList_single] at enough ⊢
    obtain ⟨left, found, closed⟩ :=
      each item List.mem_cons_self _ _ (.bracket rest) (Nat.le_of_lt_succ enough)
    simp only [readItems, found, closed, List.reverse_cons]
  | cons next items ih =>
    obtain ⟨fuel, rfl⟩ := Nat.exists_eq_succ_of_ne_zero (Nat.ne_zero_of_lt enough)
    have written : (commaList (writeItems (item :: next :: items))).toList =
        item.write.toList ++ ',' :: (commaList (writeItems (next :: items))).toList :=
      toList_commaList_cons _ _ _
    rw [written, List.length_append, List.length_cons] at enough
    obtain ⟨left, found, comma⟩ := each item List.mem_cons_self fuel
      (',' :: ((commaList (writeItems (next :: items))).toList ++ ']' :: rest)) (.comma _) (by omega)
    rw [written, List.append_assoc, List.cons_append]
    simp only [readItems, found, comma]
    rw [ih (fun other mem => each other (List.mem_cons_of_mem _ mem)) _ (by omega), List.reverse_cons,
      List.append_assoc, List.singleton_append]

/-- The fields of an object are read back one after the other. -/
theorem readFields_write {field : String × Json} {fields : List (String × Json)}
    (each : ∀ other ∈ field :: fields, other.2.ReadsBack depth) (seen : List (String × Json))
    (enough : (commaList (writeFields (field :: fields))).toList.length < fuel) :
    readFields depth seen fuel ((commaList (writeFields (field :: fields))).toList ++ '\x7d' :: rest) =
      some (seen.reverse ++ field :: fields, rest) := by
  have quoted (text : List Char) : skipBlanks ('"' :: text) = '"' :: text := rfl
  have colon (text : List Char) : skipBlanks (':' :: text) = ':' :: text := rfl
  induction fields generalizing field seen fuel with
  | nil =>
    obtain ⟨fuel, rfl⟩ := Nat.exists_eq_succ_of_ne_zero (Nat.ne_zero_of_lt enough)
    obtain ⟨name, value⟩ := field
    rw [writeFields, writeFields, toList_commaList_single, toList_field] at enough ⊢
    simp only [List.length_cons, List.length_append] at enough
    obtain ⟨left, found, closed⟩ := each _ List.mem_cons_self fuel _ (.brace rest) (by dsimp only; omega)
    simp only [List.cons_append, List.append_assoc, readFields, quoted, readQuoted_quoted, colon, found, closed,
      List.reverse_cons]
  | cons next fields ih =>
    obtain ⟨fuel, rfl⟩ := Nat.exists_eq_succ_of_ne_zero (Nat.ne_zero_of_lt enough)
    obtain ⟨name, value⟩ := field
    have written : (commaList (writeFields ((name, value) :: next :: fields))).toList =
        (quote name ++ ":" ++ write value).toList ++ ',' :: (commaList (writeFields (next :: fields))).toList :=
      toList_commaList_cons _ _ _
    rw [written, toList_field] at enough ⊢
    simp only [List.length_cons, List.length_append] at enough
    obtain ⟨left, found, comma⟩ := each _ List.mem_cons_self fuel
      (',' :: ((commaList (writeFields (next :: fields))).toList ++ '\x7d' :: rest)) (.comma _)
      (by dsimp only; omega)
    simp only [List.cons_append, List.append_assoc, readFields, quoted, readQuoted_quoted, colon, found, comma]
    rw [ih (fun other mem => each other (List.mem_cons_of_mem _ mem)) _ (by omega), List.reverse_cons,
      List.append_assoc, List.singleton_append]

theorem ReadsBack.array {items : List Json} (nested : 1 < depth)
    (each : ∀ item ∈ items, item.ReadsBack (depth - 1)) : (Json.array items).ReadsBack depth := by
  intro fuel rest after enough
  refine ⟨rest, ?_, after.skipBlanks_eq⟩
  rw [toList_write_array] at enough ⊢
  rw [List.length_cons, List.length_append, List.length_singleton] at enough
  obtain ⟨fuel, rfl⟩ := Nat.exists_eq_succ_of_ne_zero (Nat.ne_zero_of_lt enough)
  rw [List.cons_append, List.append_assoc, List.singleton_append]
  cases items with
  | nil =>
    have opened : readValue depth (fuel + 1) ('[' :: ']' :: rest) =
        if depth ≤ 1 then none else some (.array [], rest) := rfl
    exact opened.trans (if_neg (Nat.not_le.2 nested))
  | cons item items => exact readValue_array nested (readItems_write each [] (by omega))

theorem ReadsBack.object {fields : List (String × Json)} (nested : 1 < depth)
    (each : ∀ field ∈ fields, field.2.ReadsBack (depth - 1)) : (Json.object fields).ReadsBack depth := by
  intro fuel rest after enough
  refine ⟨rest, ?_, after.skipBlanks_eq⟩
  rw [toList_write_object] at enough ⊢
  rw [List.length_cons, List.length_append, List.length_singleton] at enough
  obtain ⟨fuel, rfl⟩ := Nat.exists_eq_succ_of_ne_zero (Nat.ne_zero_of_lt enough)
  rw [List.cons_append, List.append_assoc, List.singleton_append]
  cases fields with
  | nil =>
    have opened : readValue depth (fuel + 1) ('\x7b' :: '\x7d' :: rest) =
        if depth ≤ 1 then none else some (.object [], rest) := rfl
    exact opened.trans (if_neg (Nat.not_le.2 nested))
  | cons field fields => exact readValue_object nested (readFields_write each [] (by omega))

end

/-! ## Whole values -/

/-- A value with one character or more is read with some fuel. -/
theorem ReadsBack.of_succ {depth : Nat} {json : Json} (faithful : json.Faithful depth)
    (reads : ∀ (fuel : Nat) (rest : List Char), AfterValue rest →
      ∃ left, readValue depth (fuel + 1) (json.write.toList ++ rest) = some (json, left) ∧
        skipBlanks left = rest) : json.ReadsBack depth := by
  intro fuel rest after enough
  have shown := List.length_pos_iff.2 (write_ne_nil faithful)
  obtain ⟨fuel, rfl⟩ := Nat.exists_eq_succ_of_ne_zero (Nat.ne_zero_of_lt (Nat.lt_of_lt_of_le shown enough))
  exact reads fuel rest after

theorem Faithful.readsBack : (json : Json) → {depth : Nat} → json.Faithful depth → json.ReadsBack depth
  | .null, _, faithful => .of_succ faithful fun _ rest after => ⟨rest, rfl, after.skipBlanks_eq⟩
  | .bool true, _, faithful => .of_succ faithful fun _ rest after => ⟨rest, rfl, after.skipBlanks_eq⟩
  | .bool false, _, faithful => .of_succ faithful fun _ rest after => ⟨rest, rfl, after.skipBlanks_eq⟩
  | .natural _, depth, faithful => .of_succ faithful fun fuel rest after =>
    ⟨rest, readValue_natural faithful after depth fuel, after.skipBlanks_eq⟩
  | .negative _, depth, faithful => .of_succ faithful fun fuel rest after =>
    ⟨rest, readValue_negative faithful.1 faithful.2 after depth fuel, after.skipBlanks_eq⟩
  | .real _, depth, faithful => .of_succ faithful fun fuel _ after =>
    readValue_faithful_real faithful after depth fuel
  | .string text, depth, faithful => .of_succ faithful fun fuel rest after =>
    ⟨rest, readValue_string text rest depth fuel, after.skipBlanks_eq⟩
  | .array items, _, faithful => .array faithful.1 fun item mem =>
    readsBack item (faithfulItems_iff.1 faithful.2 item mem)
  | .object fields, _, faithful => .object faithful.1 fun field mem =>
    readsBack field.2 (faithfulFields_iff.1 faithful.2 field mem)
termination_by json => json
decreasing_by
  · have := List.sizeOf_lt_of_mem mem
    simp only [Json.array.sizeOf_spec]
    omega
  · have inField : sizeOf field.2 < sizeOf field := by
      cases field
      simp only [Prod.mk.sizeOf_spec]
      omega
    have := List.sizeOf_lt_of_mem mem
    simp only [Json.object.sizeOf_spec]
    omega

/-- A faithful value is what the reader makes of its text. -/
theorem read_write {json : Json} (faithful : json.Faithful depthLimit) : read json.write = some json := by
  obtain ⟨left, taken, blank⟩ :=
    faithful.readsBack json (2 * json.write.toList.length + 2) [] trivial (by omega)
  rw [List.append_nil] at taken
  simp only [read, taken, blank]
  rfl

end LeaseFleet.Json
