/-!
# Bounded histories

A history that keeps its newest entries: once it is full, the oldest entry makes room for the
next one.
-/

namespace LeaseFleet

variable {α : Type}

/-- Appends a value and keeps the last `size` of them; with size zero nothing is kept or
dropped. -/
def keepLast (size : Nat) (values : List α) (value : α) : List α :=
  if size = 0 then values
  else values.drop (values.length + 1 - size) ++ [value]

/-- What is kept of the last entries and one more are the last entries with it. -/
theorem keepLast_drop (size : Nat) (older : List α) (value : α) :
    keepLast size (older.drop (older.length - size)) value =
      (older ++ [value]).drop ((older ++ [value]).length - size) := by
  unfold keepLast
  split
  case isTrue none => simp [none]
  case isFalse positive =>
    rw [List.length_append, List.length_singleton, List.length_drop, List.drop_drop,
      List.drop_append_of_le_length (by omega)]
    congr 2
    omega

/-- Filled one after another, a history has the last of all entries. -/
theorem foldl_keepLast (size : Nat) (older values : List α) :
    values.foldl (keepLast size) (older.drop (older.length - size)) =
      (older ++ values).drop ((older ++ values).length - size) := by
  induction values generalizing older with
  | nil => simp
  | cons value rest ih =>
    rw [List.foldl_cons, keepLast_drop, ih, List.append_assoc, List.singleton_append]

end LeaseFleet
