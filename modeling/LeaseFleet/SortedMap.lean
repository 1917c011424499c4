/-!
# Finite maps in key order

A map is the list of its entries with strictly increasing keys, so two maps with the same
entries are equal and every listing comes out in key order. Each operation is described by
what it does to `get?`.
-/

namespace LeaseFleet

open Std

/-- A finite map whose entries are listed with strictly increasing keys. -/
structure SortedMap (κ ν : Type) [Ord κ] where
  /-- The entries, in key order. -/
  entries : List (κ × ν)
  sorted : entries.Pairwise (fun a b => compare a.1 b.1 = .lt)
  deriving DecidableEq

namespace SortedMap

variable {κ ν μ : Type} [Ord κ]

/-- Writes an entry into an ordered list of entries, replacing one of the same key. -/
def insertEntry (key : κ) (value : ν) : List (κ × ν) → List (κ × ν)
  | [] => [(key, value)]
  | (k, v) :: rest =>
    match compare key k with
    | .lt => (key, value) :: (k, v) :: rest
    | .eq => (key, value) :: rest
    | .gt => (k, v) :: insertEntry key value rest

/-- The value of the first entry with the given key. -/
def lookupEntry (key : κ) : List (κ × ν) → Option ν
  | [] => none
  | (k, v) :: rest => if compare key k = .eq then some v else lookupEntry key rest

theorem not_lt_self [TransOrd κ] (key : κ) : compare key key ≠ .lt := by
  simp

theorem mem_insertEntry {key : κ} {value : ν} {list : List (κ × ν)} {e : κ × ν}
    (h : e ∈ insertEntry key value list) : e = (key, value) ∨ e ∈ list := by
  induction list with
  | nil => simpa [insertEntry] using h
  | cons head rest ih =>
    obtain ⟨k, v⟩ := head
    simp only [insertEntry] at h
    split at h
    · simpa using h
    · rcases List.mem_cons.1 h with h | h
      · exact .inl h
      · exact .inr (List.mem_cons_of_mem _ h)
    · rcases List.mem_cons.1 h with h | h
      · exact .inr (h ▸ List.mem_cons_self)
      · exact (ih h).imp_right (List.mem_cons_of_mem _)

theorem insertEntry_sorted [TransOrd κ] [LawfulEqOrd κ] {key : κ} {value : ν}
    {list : List (κ × ν)} (h : list.Pairwise (fun a b => compare a.1 b.1 = .lt)) :
    (insertEntry key value list).Pairwise (fun a b => compare a.1 b.1 = .lt) := by
  induction list with
  | nil => simp [insertEntry]
  | cons head rest ih =>
    obtain ⟨k, v⟩ := head
    obtain ⟨headLt, restSorted⟩ := List.pairwise_cons.1 h
    simp only [insertEntry]
    split
    next before =>
      refine List.pairwise_cons.2 ⟨fun e he => ?_, h⟩
      rcases List.mem_cons.1 he with rfl | he
      · exact before
      · exact TransCmp.lt_trans before (headLt e he)
    next same =>
      have keyEq : key = k := LawfulEqCmp.eq_of_compare same
      subst keyEq
      exact List.pairwise_cons.2 ⟨headLt, restSorted⟩
    next after =>
      refine List.pairwise_cons.2 ⟨fun e he => ?_, ih restSorted⟩
      rcases mem_insertEntry he with rfl | he
      · exact OrientedCmp.lt_of_gt after
      · exact headLt e he

def empty : SortedMap κ ν := ⟨[], .nil⟩

instance : EmptyCollection (SortedMap κ ν) := ⟨empty⟩
instance : Inhabited (SortedMap κ ν) := ⟨empty⟩

def get? (map : SortedMap κ ν) (key : κ) : Option ν := lookupEntry key map.entries

def contains (map : SortedMap κ ν) (key : κ) : Bool := (map.get? key).isSome

/-- Stores a value under a key, replacing what was there. -/
def insert [TransOrd κ] [LawfulEqOrd κ] (map : SortedMap κ ν) (key : κ) (value : ν) :
    SortedMap κ ν :=
  ⟨insertEntry key value map.entries, insertEntry_sorted map.sorted⟩

def filter (keep : κ → ν → Bool) (map : SortedMap κ ν) : SortedMap κ ν :=
  ⟨map.entries.filter (fun e => keep e.1 e.2), map.sorted.filter _⟩

def erase (map : SortedMap κ ν) (key : κ) : SortedMap κ ν :=
  map.filter (fun k _ => compare key k != .eq)

/-- Changes every value, keys staying as they are. -/
def mapValues (f : κ → ν → μ) (map : SortedMap κ ν) : SortedMap κ μ :=
  ⟨map.entries.map (fun e => (e.1, f e.1 e.2)), by
    rw [List.pairwise_map]
    exact map.sorted⟩

/-- The keys, in order. -/
def keys (map : SortedMap κ ν) : List κ := map.entries.map (·.1)

/-- The values, in key order. -/
def values (map : SortedMap κ ν) : List ν := map.entries.map (·.2)

def size (map : SortedMap κ ν) : Nat := map.entries.length

def isEmpty (map : SortedMap κ ν) : Bool := map.entries.isEmpty

/-- The map of a list of entries; of several entries with one key the last counts. -/
def ofList [TransOrd κ] [LawfulEqOrd κ] (list : List (κ × ν)) : SortedMap κ ν :=
  list.foldl (fun map e => map.insert e.1 e.2) empty

/-- Stores a value under a key that has none yet. -/
def insertIfNew [TransOrd κ] [LawfulEqOrd κ] (map : SortedMap κ ν) (key : κ) (value : ν) :
    SortedMap κ ν :=
  if map.contains key then map else map.insert key value

/-! ## What the operations do to `get?` -/

@[simp] theorem get?_empty (key : κ) : (empty : SortedMap κ ν).get? key = none := rfl

theorem lookupEntry_insertEntry [TransOrd κ] [LawfulEqOrd κ] (key other : κ) (value : ν)
    (list : List (κ × ν)) :
    lookupEntry other (insertEntry key value list) =
      if compare other key = .eq then some value else lookupEntry other list := by
  induction list with
  | nil => simp [insertEntry, lookupEntry]
  | cons head rest ih =>
    obtain ⟨k, v⟩ := head
    simp only [insertEntry]
    split
    next => simp [lookupEntry]
    next same =>
      have keyEq : key = k := LawfulEqCmp.eq_of_compare same
      subst keyEq
      simp only [lookupEntry]
      split <;> rfl
    next after =>
      simp only [lookupEntry, ih]
      by_cases here : compare other k = .eq
      · have otherEq : other = k := LawfulEqCmp.eq_of_compare here
        subst otherEq
        have notEq : compare other key ≠ .eq := by
          rw [OrientedCmp.lt_of_gt after]
          decide
        simp [notEq]
      · simp [here]

theorem get?_insert [TransOrd κ] [LawfulEqOrd κ] (map : SortedMap κ ν) (key other : κ)
    (value : ν) :
    (map.insert key value).get? other =
      if compare other key = .eq then some value else map.get? other :=
  lookupEntry_insertEntry key other value map.entries

@[simp] theorem get?_insert_self [TransOrd κ] [LawfulEqOrd κ] (map : SortedMap κ ν) (key : κ)
    (value : ν) : (map.insert key value).get? key = some value := by
  simp [get?_insert]

theorem get?_insert_of_ne [TransOrd κ] [LawfulEqOrd κ] (map : SortedMap κ ν) {key other : κ}
    (h : other ≠ key) (value : ν) : (map.insert key value).get? other = map.get? other := by
  rw [get?_insert, if_neg]
  exact fun same => h (LawfulEqCmp.eq_of_compare same)

/-- What is stored after an insertion: the new entry, and whatever was stored under other keys. -/
theorem get?_insert_eq_some_iff [TransOrd κ] [LawfulEqOrd κ] {map : SortedMap κ ν} {key other : κ}
    {value found : ν} :
    (map.insert key value).get? other = some found ↔
      (other = key ∧ value = found) ∨ (other ≠ key ∧ map.get? other = some found) := by
  by_cases same : other = key
  · subst same
    simp
  · rw [get?_insert_of_ne map same]
    simp [same]

/-- What holds of a new entry and of the others holds of all entries. -/
theorem forall_insert [TransOrd κ] [LawfulEqOrd κ] {P : κ → ν → Prop} {map : SortedMap κ ν} {key : κ}
    {value : ν} (new : P key value)
    (others : ∀ {other found}, other ≠ key → map.get? other = some found → P other found)
    {other : κ} {found : ν} (here : (map.insert key value).get? other = some found) :
    P other found := by
  rcases get?_insert_eq_some_iff.1 here with ⟨rfl, rfl⟩ | ⟨ne, here⟩
  · exact new
  · exact others ne here

theorem lookupEntry_eq_some_iff [TransOrd κ] [LawfulEqOrd κ] {key : κ} {value : ν}
    {list : List (κ × ν)} (h : list.Pairwise (fun a b => compare a.1 b.1 = .lt)) :
    lookupEntry key list = some value ↔ (key, value) ∈ list := by
  induction list with
  | nil => simp [lookupEntry]
  | cons head rest ih =>
    obtain ⟨k, v⟩ := head
    obtain ⟨headLt, restSorted⟩ := List.pairwise_cons.1 h
    simp only [lookupEntry]
    by_cases here : compare key k = .eq
    · have keyEq : key = k := LawfulEqCmp.eq_of_compare here
      subst keyEq
      rw [if_pos here]
      constructor
      · intro same
        simp [Option.some.inj same]
      · intro mem
        rcases List.mem_cons.1 mem with same | mem
        · simp [(Prod.mk.inj same).2]
        · exact absurd (headLt _ mem) (not_lt_self key)
    · rw [if_neg here, ih restSorted]
      constructor
      · exact List.mem_cons_of_mem _
      · intro mem
        rcases List.mem_cons.1 mem with same | mem
        · rw [(Prod.mk.inj same).1] at here
          exact absurd ReflCmp.compare_self here
        · exact mem

theorem get?_eq_some_iff [TransOrd κ] [LawfulEqOrd κ] {map : SortedMap κ ν} {key : κ}
    {value : ν} : map.get? key = some value ↔ (key, value) ∈ map.entries :=
  lookupEntry_eq_some_iff map.sorted

theorem get?_filter [TransOrd κ] [LawfulEqOrd κ] (keep : κ → ν → Bool) (map : SortedMap κ ν)
    (key : κ) : (map.filter keep).get? key = (map.get? key).filter (keep key) := by
  refine Option.ext fun value => ?_
  rw [get?_eq_some_iff, Option.filter_eq_some_iff, get?_eq_some_iff]
  simp [filter]

theorem get?_erase [TransOrd κ] [LawfulEqOrd κ] (map : SortedMap κ ν) (key other : κ) :
    (map.erase key).get? other =
      if compare other key = .eq then none else map.get? other := by
  rw [erase, get?_filter]
  by_cases same : compare other key = .eq
  · have keyEq : other = key := LawfulEqCmp.eq_of_compare same
    subst keyEq
    rw [if_pos same]
    cases map.get? other <;> simp
  · have flipped : compare key other ≠ .eq := fun eq => same (OrientedCmp.eq_symm eq)
    rw [if_neg same]
    cases map.get? other <;> simp [flipped]

/-- What is stored after a removal: whatever was stored under other keys. -/
theorem get?_erase_eq_some_iff [TransOrd κ] [LawfulEqOrd κ] {map : SortedMap κ ν} {key other : κ}
    {found : ν} :
    (map.erase key).get? other = some found ↔ other ≠ key ∧ map.get? other = some found := by
  rw [get?_erase]
  by_cases same : other = key
  · simp [same]
  · have differs : compare other key ≠ .eq := fun eq => same (LawfulEqCmp.eq_of_compare eq)
    simp [same, differs]

/-- Two maps that answer every key alike are the same map. -/
theorem ext_get? [TransOrd κ] [LawfulEqOrd κ] {left right : SortedMap κ ν}
    (h : ∀ key, left.get? key = right.get? key) : left = right := by
  have sameMem : ∀ e, e ∈ left.entries ↔ e ∈ right.entries := fun e => by
    have leftIff : left.get? e.1 = some e.2 ↔ e ∈ left.entries := get?_eq_some_iff
    have rightIff : right.get? e.1 = some e.2 ↔ e ∈ right.entries := get?_eq_some_iff
    rw [← leftIff, ← rightIff, h]
  have sameEntries : ∀ {l r : List (κ × ν)},
      l.Pairwise (fun a b => compare a.1 b.1 = .lt) →
      r.Pairwise (fun a b => compare a.1 b.1 = .lt) →
      (∀ e, e ∈ l ↔ e ∈ r) → l = r := by
    intro l
    induction l with
    | nil =>
      intro r _ _ same
      cases r with
      | nil => rfl
      | cons e _ => exact absurd ((same e).2 List.mem_cons_self) (by simp)
    | cons a l ih =>
      intro r sortedL sortedR same
      cases r with
      | nil => exact absurd ((same a).1 List.mem_cons_self) (by simp)
      | cons b r =>
        obtain ⟨aLt, restL⟩ := List.pairwise_cons.1 sortedL
        obtain ⟨bLt, restR⟩ := List.pairwise_cons.1 sortedR
        have heads : a = b := by
          rcases List.mem_cons.1 ((same a).1 List.mem_cons_self) with eq | inR
          · exact eq
          · rcases List.mem_cons.1 ((same b).2 List.mem_cons_self) with eq | inL
            · exact eq.symm
            · exact absurd (TransCmp.lt_trans (aLt b inL) (bLt a inR)) (not_lt_self a.1)
        subst heads
        refine congrArg (a :: ·) (ih restL restR fun e => ?_)
        constructor
        · intro mem
          rcases List.mem_cons.1 ((same e).1 (List.mem_cons_of_mem _ mem)) with rfl | inR
          · exact absurd (aLt _ mem) (not_lt_self e.1)
          · exact inR
        · intro mem
          rcases List.mem_cons.1 ((same e).2 (List.mem_cons_of_mem _ mem)) with rfl | inL
          · exact absurd (bLt _ mem) (not_lt_self e.1)
          · exact inL
  have := sameEntries left.sorted right.sorted sameMem
  cases left
  cases right
  simp_all

theorem insert_insert [TransOrd κ] [LawfulEqOrd κ] (map : SortedMap κ ν) (key : κ)
    (first second : ν) : (map.insert key first).insert key second = map.insert key second := by
  refine ext_get? fun other => ?_
  simp only [get?_insert]
  split <;> rfl

theorem insert_of_found [TransOrd κ] [LawfulEqOrd κ] {map : SortedMap κ ν} {key : κ} {value : ν}
    (found : map.get? key = some value) : map.insert key value = map := by
  refine ext_get? fun other => ?_
  by_cases same : other = key
  · rw [same, get?_insert_self, found]
  · exact get?_insert_of_ne map same value

theorem insert_erase [TransOrd κ] [LawfulEqOrd κ] (map : SortedMap κ ν) (key : κ) (value : ν) :
    (map.erase key).insert key value = map.insert key value := by
  refine ext_get? fun other => ?_
  simp only [get?_insert, get?_erase]
  split <;> rfl

theorem contains_insert_iff [TransOrd κ] [LawfulEqOrd κ] {map : SortedMap κ ν} {key other : κ} {value : ν} :
    (map.insert key value).contains other = true ↔ other = key ∨ map.contains other = true := by
  unfold contains
  by_cases same : other = key
  · simp [same]
  · simp [get?_insert_of_ne map same, same]

theorem contains_insert_of_contains [TransOrd κ] [LawfulEqOrd κ] {map : SortedMap κ ν} {key other : κ}
    {value : ν} (known : map.contains other = true) : (map.insert key value).contains other = true :=
  contains_insert_iff.2 (.inr known)

theorem contains_erase_iff [TransOrd κ] [LawfulEqOrd κ] {map : SortedMap κ ν} {key other : κ} :
    (map.erase key).contains other = true ↔ other ≠ key ∧ map.contains other = true := by
  simp [contains, Option.isSome_iff_exists, get?_erase_eq_some_iff]

theorem size_insert_of_absent [TransOrd κ] [LawfulEqOrd κ] {map : SortedMap κ ν} {key : κ}
    (absent : map.get? key = none) (value : ν) : (map.insert key value).size = map.size + 1 := by
  have along (list : List (κ × ν)) (absent : lookupEntry key list = none) :
      (insertEntry key value list).length = list.length + 1 := by
    induction list with
    | nil => rfl
    | cons head rest ih =>
      simp only [lookupEntry] at absent
      split at absent
      · cases absent
      · simp only [insertEntry]
        split
        · rfl
        · contradiction
        · rw [List.length_cons, ih absent, List.length_cons]
  exact along map.entries absent

theorem size_insert [TransOrd κ] [LawfulEqOrd κ] (map : SortedMap κ ν) (key : κ) (value : ν) :
    (map.insert key value).size = (map.erase key).size + 1 := by
  rw [← insert_erase]
  exact size_insert_of_absent (by simp [get?_erase]) value

theorem size_erase_of_found [TransOrd κ] [LawfulEqOrd κ] {map : SortedMap κ ν} {key : κ} {value : ν}
    (found : map.get? key = some value) : (map.erase key).size + 1 = map.size := by
  rw [← size_insert map key value, insert_of_found found]

theorem size_insert_of_found [TransOrd κ] [LawfulEqOrd κ] {map : SortedMap κ ν} {key : κ} {value found : ν}
    (here : map.get? key = some found) : (map.insert key value).size = map.size := by
  rw [size_insert, size_erase_of_found here]

/-- What a map holds after further entries were stored, if no two of these have the same key. -/
theorem get?_foldl_insert [TransOrd κ] [LawfulEqOrd κ] (list : List (κ × ν)) (map : SortedMap κ ν)
    (distinct : (list.map (·.1)).Nodup) {key : κ} {value : ν} :
    (list.foldl (fun map e => map.insert e.1 e.2) map).get? key = some value ↔
      (key, value) ∈ list ∨ key ∉ list.map (·.1) ∧ map.get? key = some value := by
  induction list generalizing map with
  | nil => simp
  | cons head rest ih =>
    obtain ⟨k, v⟩ := head
    rw [List.map_cons, List.nodup_cons] at distinct
    obtain ⟨new, distinct⟩ := distinct
    rw [List.foldl_cons, ih _ distinct, get?_insert_eq_some_iff]
    by_cases same : key = k
    · subst same
      have notLater : (key, value) ∉ rest := fun mem => new (List.mem_map.2 ⟨_, mem, rfl⟩)
      simp [new, notLater, eq_comm]
    · simp [same]

/-- The map of entries with distinct keys holds exactly these entries. -/
theorem get?_ofList [TransOrd κ] [LawfulEqOrd κ] {list : List (κ × ν)}
    (distinct : (list.map (·.1)).Nodup) {key : κ} {value : ν} :
    (ofList list).get? key = some value ↔ (key, value) ∈ list := by
  simp [ofList, get?_foldl_insert list empty distinct]

theorem contains_foldl_insert [TransOrd κ] [LawfulEqOrd κ] (list : List (κ × ν))
    (map : SortedMap κ ν) (key : κ) :
    (list.foldl (fun map e => map.insert e.1 e.2) map).contains key = true ↔
      key ∈ list.map (·.1) ∨ map.contains key = true := by
  induction list generalizing map with
  | nil => simp
  | cons head rest ih =>
    rw [List.foldl_cons, ih]
    by_cases same : key = head.1
    · simp [same, contains]
    · simp [same, contains, get?_insert_of_ne map same]

/-- The keys of a map of entries are the keys of the entries. -/
theorem contains_ofList [TransOrd κ] [LawfulEqOrd κ] {list : List (κ × ν)} {key : κ} :
    (ofList list).contains key = true ↔ key ∈ list.map (·.1) := by
  rw [ofList, contains_foldl_insert]
  simp [contains]

/-- What a map of entries holds is one of the entries. -/
theorem mem_of_get?_ofList [TransOrd κ] [LawfulEqOrd κ] {list : List (κ × ν)} {key : κ} {value : ν}
    (found : (ofList list).get? key = some value) : (key, value) ∈ list := by
  have along (rest : List (κ × ν)) (map : SortedMap κ ν)
      (found : (rest.foldl (fun map e => map.insert e.1 e.2) map).get? key = some value) :
      (key, value) ∈ rest ∨ map.get? key = some value := by
    induction rest generalizing map with
    | nil => exact .inr found
    | cons head rest ih =>
      obtain mem | found := ih _ found
      · exact .inl (List.mem_cons_of_mem _ mem)
      · obtain ⟨rfl, rfl⟩ | ⟨_, found⟩ := get?_insert_eq_some_iff.1 found
        · exact .inl List.mem_cons_self
        · exact .inr found
  exact (along list .empty found).resolve_right (by simp)

/-- What a map holds after some keys were erased. -/
theorem get?_foldl_erase [TransOrd κ] [LawfulEqOrd κ] {map : SortedMap κ ν} {keys : List κ} {key : κ}
    {value : ν} :
    (keys.foldl erase map).get? key = some value ↔ map.get? key = some value ∧ key ∉ keys := by
  induction keys generalizing map with
  | nil => simp
  | cons head rest ih =>
    rw [List.foldl_cons, ih, get?_erase_eq_some_iff, List.mem_cons, not_or, and_comm (a := key ≠ head),
      and_assoc]

theorem contains_foldl_erase [TransOrd κ] [LawfulEqOrd κ] {map : SortedMap κ ν} {keys : List κ}
    {key : κ} :
    (keys.foldl erase map).contains key = true ↔ map.contains key = true ∧ key ∉ keys := by
  simp [contains, Option.isSome_iff_exists, get?_foldl_erase]

theorem mem_values [TransOrd κ] [LawfulEqOrd κ] {map : SortedMap κ ν} {value : ν} :
    value ∈ map.values ↔ ∃ key, map.get? key = some value := by
  simp [values, get?_eq_some_iff]

theorem mem_keys [TransOrd κ] [LawfulEqOrd κ] {map : SortedMap κ ν} {key : κ} :
    key ∈ map.keys ↔ map.contains key := by
  simp [keys, contains, Option.isSome_iff_exists, get?_eq_some_iff]

theorem nodup_keys [TransOrd κ] (map : SortedMap κ ν) : map.keys.Nodup := by
  refine List.pairwise_map.2 (map.sorted.imp fun before same => ?_)
  rw [same] at before
  exact not_lt_self _ before

/-- A map is empty if no key has a value. -/
theorem isEmpty_iff [TransOrd κ] [LawfulEqOrd κ] {map : SortedMap κ ν} :
    map.isEmpty = true ↔ ∀ key, map.get? key = none := by
  rw [isEmpty, List.isEmpty_iff]
  constructor
  · intro none key
    rw [get?, none]
    rfl
  · intro absent
    refine List.eq_nil_iff_forall_not_mem.2 fun entry mem => ?_
    have found := get?_eq_some_iff.2 mem
    rw [absent] at found
    cases found

end SortedMap

/-! ## Sets -/

/-- A finite set listed in order: a map whose values carry nothing. -/
abbrev SortedSet (κ : Type) [Ord κ] := SortedMap κ Unit

namespace SortedSet

variable {κ : Type} [Ord κ]

def ofList [TransOrd κ] [LawfulEqOrd κ] (list : List κ) : SortedSet κ :=
  list.foldl (fun set key => set.insert key ()) .empty

def insertAll [TransOrd κ] [LawfulEqOrd κ] (set : SortedSet κ) (list : List κ) : SortedSet κ :=
  list.foldl (fun set key => set.insert key ()) set

/-- The members, in order. -/
def toList (set : SortedSet κ) : List κ := set.keys

theorem contains_insertAll [TransOrd κ] [LawfulEqOrd κ] (set : SortedSet κ) (list : List κ)
    (key : κ) : (insertAll set list).contains key ↔ set.contains key ∨ key ∈ list := by
  induction list generalizing set with
  | nil => simp [insertAll]
  | cons head rest ih =>
    have step : (insertAll set (head :: rest)) = insertAll (set.insert head ()) rest := rfl
    rw [step, ih]
    simp only [SortedMap.contains, SortedMap.get?_insert, List.mem_cons]
    by_cases same : compare key head = .eq
    · have keyEq : key = head := LawfulEqCmp.eq_of_compare same
      simp [keyEq]
    · have keyNe : key ≠ head := fun eq => same (by simp [eq])
      simp [same, keyNe]

theorem mem_toList_ofList [TransOrd κ] [LawfulEqOrd κ] {list : List κ} {key : κ} :
    key ∈ (ofList list).toList ↔ key ∈ list := by
  have members := contains_insertAll .empty list key
  simpa [toList, SortedMap.mem_keys, ofList, insertAll, SortedMap.contains] using members

end SortedSet

end LeaseFleet
