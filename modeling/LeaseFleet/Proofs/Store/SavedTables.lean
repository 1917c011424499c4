import LeaseFleet.Proofs.Json.Rereading
import LeaseFleet.Proofs.Assignment.CountPasses
import LeaseFleet.Store.Memory

/-!
# Saved tables

A saved table is the text of its leases, in bytes. A lease whose numbers have a word and whose throughput
is a finite double that its digits determine is read back as it was (`Lease.ofJson?_toJson`); so a saved
table replaces whatever another store held, and bytes that hold no list of leases replace nothing
(`saved_tables_return`).
-/

namespace LeaseFleet

/-! ## Checkpoints and leases -/

/-- Whether the checkpoint has a timestamp, if any, of one word. -/
def Checkpoint.Storable : Checkpoint → Prop
  | .atTimestamp millis => millis < Decimal.wordLimit
  | _ => True

/-- Whether the text of a double determines it. -/
def Json.Lossless (x : Float) : Prop := Json.read (Json.write (.real x)) = some (.real x)

theorem Json.lossless_of_reread {x : Float}
    (reread : (match Json.read (Json.write (.real x)) with
      | some (.real y) => decide (y = x)
      | _ => false) = true) : Json.Lossless x := by
  split at reread
  next y taken => rw [Json.Lossless, taken, of_decide_eq_true reread]
  next => cases reread

/-- Whether the record of a lease holds all of it: its numbers have one word, and its throughput is a
finite double without loss. -/
structure Lease.Storable (lease : Lease) : Prop where
  counter : lease.counter < Decimal.wordLimit
  ownerSwitches : lease.ownerSwitches < Decimal.wordLimit
  checkpoint : lease.checkpoint.Storable
  finite : ∀ kbps, lease.throughputKbps = some kbps → kbps.isFinite = true
  lossless : ∀ kbps, lease.throughputKbps = some kbps → Json.Lossless kbps

namespace Json

theorem asWord?_natural {n : Nat} (fits : n < Decimal.wordLimit) : asWord? (.natural n) = some n :=
  if_pos fits

theorem asOption?_ofText? (text : Option String) : asOption? asText? (ofText? text) = some text := by
  cases text <;> rfl

theorem asOption?_ofFloat? {x : Option Float} (finite : ∀ y, x = some y → y.isFinite = true) :
    asOption? asFloat? (ofFloat? x) = some x := by
  cases x with
  | none => rfl
  | some y => rw [ofFloat?, ofFloat, if_pos (finite y rfl)]; rfl

/-- A reader of lists accepts the arrays of which its reader accepts every item. -/
theorem asList?_eq_some_iff {α : Type} {decode : Json → Option α} {json : Json} {values : List α} :
    asList? decode json = some values ↔
      ∃ items, json = .array items ∧
        List.Forall₂ (fun item value => decode item = some value) items values := by
  have along (items : List Json) (values : List α) : items.mapM decode = some values ↔
      List.Forall₂ (fun item value => decode item = some value) items values := by
    induction items generalizing values with
    | nil => simp [eq_comm]
    | cons item items ih =>
      simp only [List.mapM_cons, Option.bind_eq_bind, Option.bind_eq_some_iff, Option.pure_def,
        Option.some.injEq, ih, List.forall₂_cons_left_iff]
      constructor
      · rintro ⟨value, found, rest, others, rfl⟩
        exact ⟨value, rest, found, others, rfl⟩
      · rintro ⟨value, rest, found, others, rfl⟩
        exact ⟨value, found, rest, others, rfl⟩
  cases json with
  | array items => simp [asList?, along]
  | _ => simp [asList?]

theorem asList?_strings (texts : List String) :
    asList? asText? (.array (texts.map Json.string)) = some texts := by
  refine asList?_eq_some_iff.2 ⟨_, rfl, ?_⟩
  rw [List.forall₂_map_left_iff, List.forall₂_same]
  exact fun _ _ => rfl

end Json

theorem SortedSet.ofList_toList (set : SortedSet String) : SortedSet.ofList set.toList = set :=
  SortedSet.ext_mem fun _ => SortedSet.mem_toList_ofList

theorem Checkpoint.ofJson?_toJson {checkpoint : Checkpoint} (storable : checkpoint.Storable) :
    Checkpoint.ofJson? checkpoint.toJson = some checkpoint := by
  cases checkpoint with
  | atTimestamp millis =>
    have word := Json.asWord?_natural storable
    simp [ofJson?, toJson, Json.asRecord?, Json.required, Json.valuesOf, Json.asText?, word]
  | _ => rfl

theorem Lease.ofJson?_toJson {lease : Lease} (storable : lease.Storable) :
    Lease.ofJson? lease.toJson = some lease := by
  have counter := Json.asWord?_natural storable.counter
  have switches := Json.asWord?_natural storable.ownerSwitches
  have checkpoint := Checkpoint.ofJson?_toJson storable.checkpoint
  have parents := Json.asList?_strings lease.parents.toList
  have throughput := Json.asOption?_ofFloat? storable.finite
  simp [ofJson?, toJson, Json.asRecord?, Json.required, Json.optional, Json.defaulted, Json.valuesOf,
    Json.asText?, counter, switches, checkpoint, parents, throughput, Json.asOption?_ofText?,
    SortedSet.ofList_toList]

/-! ## Records in text -/

namespace Json

variable {depth : Nat}

theorem faithful_ofText? (text : Option String) : (ofText? text).Faithful depth := by
  cases text <;> trivial

theorem faithful_ofFloat? {x : Option Float} (lossless : ∀ y, x = some y → Lossless y) :
    (ofFloat? x).Faithful depth := by
  cases x with
  | none => trivial
  | some y =>
    rw [ofFloat?, ofFloat]
    split
    · exact lossless y rfl
    · trivial

theorem faithful_strings (nested : 1 < depth) (texts : List String) :
    (array (texts.map string)).Faithful depth := by
  refine ⟨nested, faithfulItems_iff.2 fun item mem => ?_⟩
  obtain ⟨text, -, rfl⟩ := List.mem_map.1 mem
  trivial

end Json

theorem Checkpoint.toJson_faithful {checkpoint : Checkpoint} (storable : checkpoint.Storable) {depth : Nat}
    (nested : 1 < depth) : checkpoint.toJson.Faithful depth := by
  cases checkpoint <;> simp_all [toJson, Json.Faithful, Json.FaithfulFields, Storable]

theorem Lease.toJson_faithful {lease : Lease} (storable : lease.Storable) {depth : Nat} (nested : 2 < depth) :
    lease.toJson.Faithful depth := by
  have inner : 1 < depth - 1 := by omega
  refine ⟨by omega, ?_⟩
  simp only [Json.FaithfulFields, Json.Faithful, Json.faithful_ofText?,
    Checkpoint.toJson_faithful storable.checkpoint inner, Json.faithful_ofFloat? storable.lossless, true_and,
    and_true]
  exact ⟨storable.counter, storable.ownerSwitches, Json.faithful_strings inner _⟩

/-! ## Tables -/

namespace LeaseTable

theorem ofLeases_eq_ofList (leases : List Lease) :
    ofLeases leases = SortedMap.ofList (leases.map fun lease => (lease.leaseKey, lease)) := by
  rw [SortedMap.ofList, List.foldl_map]
  rfl

/-- Writing the leases of a table one by one makes the same table. -/
theorem ofLeases_leases {table : LeaseTable} (keyed : table.Keyed) : ofLeases table.leases = table := by
  have keys : ((table.leases.map fun lease => (lease.leaseKey, lease)).map (·.1)).Nodup := by
    rw [List.map_map]
    exact keyed.lists.keys_nodup
  refine SortedMap.ext_get? fun leaseKey => Option.ext fun lease => ?_
  rw [ofLeases_eq_ofList, SortedMap.get?_ofList keys, List.mem_map]
  constructor
  · rintro ⟨lease, mem, same⟩
    cases same
    exact keyed.lists.mem.1 mem
  · intro found
    have here := keyed leaseKey lease found
    subst here
    exact ⟨lease, keyed.lists.mem.2 found, rfl⟩

end LeaseTable

namespace MemoryStore

/-- The bytes are the text of a list of records, each of which is one of the leases. -/
def Decodes (saved : ByteArray) (leases : List Lease) : Prop :=
  ∃ text items, String.fromUTF8? saved = some text ∧ Json.read text = some (.array items) ∧
    List.Forall₂ (fun item lease => Lease.ofJson? item = some lease) items leases

theorem fromUTF8?_toUTF8 (text : String) : String.fromUTF8? text.toUTF8 = some text :=
  dif_pos text.isValidUTF8

theorem decodes_iff {saved : ByteArray} {leases : List Lease} :
    Decodes saved leases ↔ savedLeases? saved = some leases := by
  simp only [Decodes, savedLeases?, leasesOfJson?, Option.bind_eq_bind, Option.bind_eq_some_iff,
    Json.asList?_eq_some_iff]
  constructor
  · rintro ⟨text, items, isText, taken, decoded⟩
    exact ⟨text, isText, _, taken, items, rfl, decoded⟩
  · rintro ⟨text, isText, _, taken, items, rfl, decoded⟩
    exact ⟨text, items, isText, taken, decoded⟩

theorem restore_of_decodes {saved : ByteArray} {leases : List Lease} (decodes : Decodes saved leases)
    (store : MemoryStore) :
    store.restore saved = (.ok leases.length, { store with table := .ofLeases leases }) := by
  rw [restore, decodes_iff.1 decodes]

theorem restore_of_not_decodes {saved : ByteArray} (lacks : ∀ leases, ¬Decodes saved leases)
    (store : MemoryStore) : store.restore saved = (.error .serialization, store) := by
  have nothing : savedLeases? saved = none :=
    Option.eq_none_iff_forall_ne_some.2 fun leases found => lacks leases (decodes_iff.2 found)
  rw [restore, nothing]

/-- A saved table is the list of its leases. -/
theorem snapshot_decodes {saved : MemoryStore} (storable : ∀ lease ∈ saved.table.leases, lease.Storable) :
    Decodes saved.snapshot saved.table.leases := by
  have faithful : saved.toJson.Faithful Json.depthLimit := by
    refine ⟨by decide, Json.faithfulItems_iff.2 fun item mem => ?_⟩
    obtain ⟨lease, held, rfl⟩ := List.mem_map.1 mem
    exact Lease.toJson_faithful (storable lease held) (by decide)
  refine ⟨_, saved.table.leases.map Lease.toJson, fromUTF8?_toUTF8 _, Json.read_write faithful, ?_⟩
  rw [List.forall₂_map_left_iff, List.forall₂_same]
  exact fun lease held => Lease.ofJson?_toJson (storable lease held)

/-- A saved table takes the place of whatever another store held, and saving it again gives the same bytes;
bytes that are no list of leases change nothing. -/
theorem saved_tables_return :
    (∀ saved other : MemoryStore, saved.table.Keyed → (∀ lease ∈ saved.table.leases, lease.Storable) →
      other.restore saved.snapshot = (.ok saved.table.leases.length, { other with table := saved.table }) ∧
        (other.restore saved.snapshot).2.table.leases = saved.table.leases ∧
        (other.restore saved.snapshot).2.snapshot = saved.snapshot) ∧
      ∀ (store : MemoryStore) (bytes : ByteArray), (∀ leases, ¬Decodes bytes leases) →
        store.restore bytes = (.error .serialization, store) := by
  refine ⟨fun saved other keyed storable => ?_, fun store bytes lacks => restore_of_not_decodes lacks store⟩
  have restored : other.restore saved.snapshot =
      (.ok saved.table.leases.length, { other with table := saved.table }) := by
    rw [restore_of_decodes (snapshot_decodes storable), LeaseTable.ofLeases_leases keyed]
  rw [restored]
  exact ⟨rfl, rfl, rfl⟩

/-- A lease with every field filled. -/
def spareLease : Lease :=
  { leaseKey := "x:1", stream := some "1:\"a\\\n\":2", shardId := "1", owner := some "w", counter := 7
    checkpoint := .sequence "495", ownerSwitches := 2, parents := .ofList ["0", "\t"]
    throughputKbps := some 1.5 }

theorem spareLease_storable : spareLease.Storable := by
  have same (kbps : Float) (found : spareLease.throughputKbps = some kbps) : kbps = 1.5 :=
    (Option.some.inj found).symm
  have finite : (1.5 : Float).isFinite = true := by decide +kernel
  have lossless : Json.Lossless 1.5 := Json.lossless_of_reread (by decide +kernel)
  exact ⟨by decide, by decide, trivial, fun kbps found => same kbps found ▸ finite,
    fun kbps found => same kbps found ▸ lossless⟩

/-- A store with two leases, one of them with every field filled, is saved and restored into a store that
held another one; a text that breaks off changes nothing. -/
theorem saved_tables_return_of_two :
    let saved : MemoryStore :=
      { table := .ofLeases [spareLease, { leaseKey := "a", shardId := "a", checkpoint := .shardEnd }] }
    let other : MemoryStore := { table := .ofLeases [{ leaseKey := "old", shardId := "old" }], failures := 1 }
    other.restore saved.snapshot = (.ok 2, { table := saved.table, failures := 1 }) ∧
      other.restore "[".toUTF8 = (.error .serialization, other) := by
  intro saved other
  have keyed : saved.table.Keyed := .ofLeases _
  have storable : ∀ lease ∈ saved.table.leases, lease.Storable := by
    intro lease mem
    obtain ⟨leaseKey, found⟩ := LeaseTable.mem_leases.1 mem
    obtain ⟨held, -⟩ := LeaseTable.get?_ofLeases found
    obtain rfl | rfl := by simpa using held
    · exact spareLease_storable
    · exact ⟨by decide, by decide, trivial, nofun, nofun⟩
  have count : saved.table.leases.length = 2 := by decide
  refine ⟨(saved_tables_return.1 saved other keyed storable).1.trans (by rw [count]), ?_⟩
  refine saved_tables_return.2 other "[".toUTF8 ?_
  rintro leases ⟨text, items, isText, taken, -⟩
  obtain rfl := Option.some.inj ((fromUTF8?_toUTF8 "[").symm.trans isText)
  cases taken

end MemoryStore

end LeaseFleet
