import Mathlib.Data.List.DropRight
import LeaseFleet.Proofs.Script.Scenes
import LeaseFleet.Utilization.Sampler

/-!
# What becomes of the samples

Captures and reports of one sampler (`Sampler.Runs`). A source may have no value when it is read, and the
store may refuse what is published. Each value that was read waits for the next report, whatever becomes of
that, and is counted there once (`SampleTally`). A report folds one mean into the stats of each metric that
has such values (`statsOf`) and publishes the summary as it stands then (`Sampler.enacts_report`).
-/

namespace LeaseFleet

/-! ## Counting -/

/-- What a run of a sampler shows: what a source had when it was read, and when a report was made. -/
inductive SamplerEvent where
  | read (metric : MetricType) (value : Option Float)
  | report

/-- The values that were read of a metric, in their order. -/
def valuesRead (metric : MetricType) (history : List SamplerEvent) : List Float :=
  history.flatMap fun
    | .read other value => if other = metric then value.toList else []
    | .report => []

/-- The values of a metric: those that each report found, the oldest report first, and those read since. -/
structure SampleTally where
  reported : List (List Float) := []
  waiting : List Float := []

namespace SampleTally

def next (metric : MetricType) (tally : SampleTally) : SamplerEvent → SampleTally
  | .read other value =>
    if other = metric then { tally with waiting := tally.waiting ++ value.toList } else tally
  | .report => { reported := tally.reported ++ [tally.waiting], waiting := [] }

/-- The tally of a metric after all that a run shows. -/
def ofHistory (metric : MetricType) (history : List SamplerEvent) : SampleTally :=
  history.foldl (next metric) {}

/-- The mean of what a buffer keeps of some values. -/
def keptMean (values : List Float) : Float := Sampler.mean (values.rtake bufferLimit)

/-- The means of the reports that found values, in their order. -/
def means (tally : SampleTally) : List Float :=
  (tally.reported.filter (!·.isEmpty)).map keptMean

theorem ofHistory_concat (metric : MetricType) (history : List SamplerEvent) (event : SamplerEvent) :
    ofHistory metric (history ++ [event]) = (ofHistory metric history).next metric event :=
  List.foldl_concat ..

/-- Each value that was read is in one report, or it waits. -/
theorem partition (metric : MetricType) (history : List SamplerEvent) :
    (ofHistory metric history).reported.flatten ++ (ofHistory metric history).waiting =
      valuesRead metric history := by
  induction history using List.reverseRecOn with
  | nil => rfl
  | append_singleton history event ih =>
    rw [ofHistory_concat, valuesRead, List.flatMap_append, ← valuesRead, ← ih]
    cases event with
    | read other value =>
      by_cases same : other = metric <;> simp [next, same]
    | report => simp [next]

/-- A report adds the mean of what waited. -/
theorem means_report (metric : MetricType) (tally : SampleTally) :
    (tally.next metric .report).means =
      if tally.waiting = [] then tally.means else tally.means ++ [keptMean tally.waiting] := by
  by_cases none : tally.waiting = [] <;> simp [next, means, none, List.filter_append]

/-- What is read changes no mean. -/
theorem means_read (metric other : MetricType) (value : Option Float) (tally : SampleTally) :
    (tally.next metric (.read other value)).means = tally.means := by
  by_cases same : other = metric <;> simp [next, means, same]

end SampleTally

/-- The stats of a metric into which some means were folded, the first one first. -/
def statsOf (config : AssignmentConfig) (range : OperatingRange) : List Float → Option MetricStats
  | [] => none
  | first :: rest => some {
      smoothed := some
        (rest.foldl (fun average mean => movingAverage config.emaAlpha mean (some average)) first)
      recent := (first :: rest).rtake config.history
      range }

/-- What is in the buffer of a metric for which some values wait. -/
def shelved (waiting : List Float) : Option (List Float) :=
  if waiting = [] then none else some (waiting.rtake bufferLimit)

theorem keepLast_rtake {α : Type} (size : Nat) (older : List α) (value : α) :
    keepLast size (older.rtake size) value = (older ++ [value]).rtake size :=
  keepLast_drop size older value

theorem shelved_getD (waiting : List Float) : (shelved waiting).getD [] = waiting.rtake bufferLimit := by
  unfold shelved
  generalize bufferLimit = limit
  split
  case isTrue none => rw [none, List.rtake_nil, Option.getD_none]
  case isFalse => rfl

/-- One more mean is recorded. -/
theorem record_statsOf (config : AssignmentConfig) (range : OperatingRange) (means : List Float)
    (mean : Float) :
    some ({ (statsOf config range means).getD {} with range }.record mean config.emaAlpha
      config.history).2 = statsOf config range (means ++ [mean]) := by
  have recent := keepLast_rtake config.history means mean
  cases means with
  | nil =>
    rw [List.rtake_nil, List.nil_append] at recent
    simp only [statsOf, List.nil_append, List.foldl_nil, ← recent]
    rfl
  | cons first rest =>
    rw [List.cons_append] at recent
    simp only [statsOf, List.cons_append, List.foldl_concat, ← recent]
    rfl

/-! ## A report -/

namespace Script

variable {σ Job Result α β : Type} {behaviour : Job → Script σ Job Result}

/-- The acts that take down measurements. -/
def takenDown (measurements : List Measurement) : List (Act σ) :=
  measurements.map fun measurement => .asked (.record measurement) ()

/-- Measurements are taken down one by one before a script goes on. -/
theorem enacts_recordAll {measurements : List Measurement} {following : Unit → Script σ Job β}
    {acts : List (Act σ)} {value : β} :
    ((recordAll measurements).bind following).Enacts behaviour acts value ↔
      ∃ rest, acts = takenDown measurements ++ rest ∧ (following ()).Enacts behaviour rest value := by
  induction measurements generalizing acts with
  | nil => simp [recordAll, takenDown]
  | cons measurement measurements ih =>
    constructor
    · intro enacts
      obtain ⟨_, later, afterRecord, rfl⟩ := Enacts.of_query enacts
      obtain ⟨rest, rfl, follows⟩ := ih.1 afterRecord
      exact ⟨rest, rfl, follows⟩
    · rintro ⟨rest, rfl, follows⟩
      exact enacts_query.2 ⟨(), _, ih.2 ⟨rest, rfl, follows⟩, rfl⟩

end Script

namespace Sampler

variable {Job Result : Type} {behaviour : Job → Script Sampler Job Result} {sampler next : Sampler}
  {acts : List (Act Sampler)} {result : Except StoreError (Option WorkerSummary)}

/-- The acts of a report that finds a sampler at a time, with the answer of the store. -/
def reportActs (found : Sampler) (now : Nat) (written : Except StoreError Unit) : List (Act Sampler) :=
  .asked .epoch now :: .changed found (found.fold now) ::
    if found.isIdle then []
    else Script.takenDown found.announcements ++ [.asked (.publish (found.fold now).summary) written]

/-- What a report of a sampler returns. -/
def reportResult (found : Sampler) (now : Nat) (written : Except StoreError Unit) :
    Except StoreError (Option WorkerSummary) :=
  if found.isIdle then .ok none else written.map fun _ => some (found.fold now).summary

/-- A report finds a sampler at a time and is answered by the store, and this is all it depends on. -/
theorem enacts_report :
    (report : Script Sampler Job _).Enacts behaviour acts result ↔
      ∃ found now written, acts = reportActs found now written ∧ result = reportResult found now written := by
  constructor
  · intro enacts
    obtain ⟨now, _, afterClock, rfl⟩ := Script.Enacts.of_query enacts
    obtain ⟨found, rest, afterFold, rfl⟩ := Script.Enacts.of_step afterClock
    unfold reportActs reportResult
    cases idle : found.isIdle with
    | true =>
      rw [idle] at afterFold
      obtain ⟨rfl, rfl⟩ := Script.Enacts.of_done afterFold
      exact ⟨found, now, .ok (), by simp [idle]⟩
    | false =>
      rw [idle] at afterFold
      obtain ⟨_, rfl, publishes⟩ := Script.enacts_recordAll.1 afterFold
      obtain ⟨written, _, ended, rfl⟩ := Script.Enacts.of_query publishes
      refine ⟨found, now, written, ?_⟩
      cases written with
      | ok | error =>
        obtain ⟨rfl, rfl⟩ := Script.Enacts.of_done ended
        simp [idle, Except.map]
  · rintro ⟨found, now, written, rfl, rfl⟩
    refine Script.enacts_query.2 ⟨now, _, Script.enacts_step.2 ⟨found, _, rfl, ?_, rfl⟩, rfl⟩
    unfold reportResult
    cases idle : found.isIdle with
    | true => exact .done _
    | false =>
      refine Script.enacts_recordAll.2 ⟨_, rfl, Script.enacts_query.2 ⟨written, [], ?_, rfl⟩⟩
      cases written with
      | ok | error => exact .done _

/-- A report changes a sampler once: it folds the buffers. -/
theorem changed_mem_reportActs {found : Sampler} {now : Nat} {written : Except StoreError Unit} :
    .changed sampler next ∈ reportActs found now written ↔ found = sampler ∧ next = sampler.fold now := by
  have quiet : .changed sampler next ∉ (if found.isIdle then []
      else Script.takenDown found.announcements ++
        [.asked (.publish (found.fold now).summary) written]) := by
    split <;> simp [Script.takenDown]
  rw [reportActs, List.mem_cons, List.mem_cons, or_iff_left quiet]
  constructor
  · rintro (same | same) <;> cases same
    exact ⟨rfl, rfl⟩
  · rintro ⟨rfl, rfl⟩
    exact .inr rfl

/-! ## The buffers and the stats -/

/-- A source that is read adds its value to what waits. -/
theorem get?_buffer {samples : SortedMap MetricType (List Float)} {metric : MetricType}
    {tally : SampleTally} (source : MetricSource)
    (here : samples.get? metric = shelved tally.waiting) :
    (buffer samples source).get? metric =
      shelved (tally.next metric (.read source.metric source.value)).waiting := by
  unfold buffer MetricSource.capture SampleTally.next
  cases source.value with
  | none => by_cases same : source.metric = metric <;> simpa [same] using here
  | some value =>
    by_cases same : source.metric = metric
    · have kept := keepLast_rtake bufferLimit tally.waiting value
      subst same
      simp only [SortedMap.get?_insert_self, here, shelved_getD, kept, if_true, Option.toList_some]
      rw [shelved, if_neg (by simp)]
    · simp only [SortedMap.get?_insert_of_ne _ (Ne.symm same), here, if_neg same]

/-- The stats of a metric after a fold: those of its buffer, if it has one. -/
theorem metrics_foldSamples (sampler : Sampler) (now : Nat) (metric : MetricType) :
    (sampler.foldSamples now).metrics.get? metric =
      match sampler.samples.get? metric with
      | none => sampler.summary.metrics.get? metric
      | some values => some (sampler.foldStats metric values) := by
  have folded : (sampler.foldSamples now).metrics =
      (sampler.samples.entries.map fun entry => (entry.1, sampler.foldStats entry.1 entry.2)).foldl
        (fun metrics entry => metrics.insert entry.1 entry.2) sampler.summary.metrics := by
    rw [List.foldl_map]
    rfl
  have keys : (sampler.samples.entries.map fun entry =>
      (entry.1, sampler.foldStats entry.1 entry.2)).map (·.1) = sampler.samples.keys := by
    rw [List.map_map]
    rfl
  refine Option.ext fun stats => ?_
  rw [folded, SortedMap.get?_foldl_insert _ _ (keys ▸ sampler.samples.nodup_keys), keys,
    SortedMap.mem_keys, SortedMap.contains]
  cases here : sampler.samples.get? metric with
  | none =>
    have absent (values : List Float) : (metric, values) ∉ sampler.samples.entries := by
      rw [← SortedMap.get?_eq_some_iff, here]
      simp
    simp [absent]
  | some values =>
    have present (other : List Float) : (metric, other) ∈ sampler.samples.entries ↔ values = other := by
      rw [← SortedMap.get?_eq_some_iff, here, Option.some.injEq]
    simp [present]

/-- What a capture reads. -/
def readings (sampler : Sampler) : List SamplerEvent :=
  sampler.sources.map fun source => .read source.metric source.value

/-- A new value leaves the operating ranges. -/
theorem rangeOf_setSource (sampler : Sampler) (index : Nat) (value : Option Float) :
    (sampler.setSource index value).rangeOf = sampler.rangeOf := by
  funext metric
  have along (sources : List MetricSource) (index : Nat) :
      ((sources.modify index fun source => { source with value }).find? (·.metric = metric)).map
        MetricSource.range = (sources.find? (·.metric = metric)).map MetricSource.range := by
    induction sources generalizing index with
    | nil => simp
    | cons source rest ih =>
      cases index with
      | zero => by_cases same : source.metric = metric <;> simp [same]
      | succ index => by_cases same : source.metric = metric <;> simp [same, ih]
  exact congrArg (Option.getD · {}) (along sampler.sources index)

/-- How a sampler stands to what a run from a first one shows. -/
structure Accounts (first : Sampler) (history : List SamplerEvent) (sampler : Sampler) : Prop where
  workerId : sampler.summary.workerId = first.summary.workerId
  config : sampler.config = first.config
  ranges : sampler.rangeOf = first.rangeOf
  sources : sampler.sources.isEmpty = first.sources.isEmpty
  waits : ∀ metric, sampler.samples.get? metric = shelved (SampleTally.ofHistory metric history).waiting
  stats : ∀ metric, sampler.summary.metrics.get? metric =
    statsOf first.config (first.rangeOf metric) (SampleTally.ofHistory metric history).means

namespace Accounts

variable {first : Sampler} {history : List SamplerEvent}

theorem start (workerId : String) (config : AssignmentConfig) (sources : List MetricSource) :
    (ofSources workerId config sources).Accounts [] (ofSources workerId config sources) :=
  ⟨rfl, rfl, rfl, rfl, fun _ => rfl, fun _ => rfl⟩

theorem set (accounts : first.Accounts history sampler) (index : Nat) (value : Option Float) :
    first.Accounts history (sampler.setSource index value) :=
  { accounts with
    ranges := (rangeOf_setSource ..).trans accounts.ranges
    sources := by
      rw [← accounts.sources, Bool.eq_iff_iff, List.isEmpty_iff_length_eq_zero,
        List.isEmpty_iff_length_eq_zero, setSource, List.length_modify] }

/-- A source is read. -/
theorem read (accounts : first.Accounts history sampler) (source : MetricSource) :
    first.Accounts (history ++ [.read source.metric source.value])
      { sampler with samples := buffer sampler.samples source } :=
  { accounts with
    waits := fun metric => by
      rw [SampleTally.ofHistory_concat]
      exact get?_buffer source (accounts.waits metric)
    stats := fun metric => by
      rw [SampleTally.ofHistory_concat, SampleTally.means_read]
      exact accounts.stats metric }

theorem capture (accounts : first.Accounts history sampler) :
    first.Accounts (history ++ sampler.readings) sampler.capture := by
  have along (sources : List MetricSource) {history : List SamplerEvent}
      {samples : SortedMap MetricType (List Float)}
      (accounts : first.Accounts history { sampler with samples }) :
      first.Accounts (history ++ sources.map fun source => .read source.metric source.value)
        { sampler with samples := sources.foldl buffer samples } := by
    induction sources generalizing history samples with
    | nil => simpa using accounts
    | cons source rest ih => simpa using ih (accounts.read source)
  exact along sampler.sources accounts

/-- A sampler is idle if it has sources and no value waits. -/
theorem isIdle_iff (accounts : first.Accounts history sampler) :
    sampler.isIdle = true ↔
      first.sources ≠ [] ∧ ∀ metric, (SampleTally.ofHistory metric history).waiting = [] := by
  have empty (waiting : List Float) : shelved waiting = none ↔ waiting = [] := by
    unfold shelved
    split <;> simp [*]
  rw [isIdle, Bool.and_eq_true, SortedMap.isEmpty_iff, accounts.sources]
  simp [accounts.waits, empty]

/-- A report that folds the buffers. -/
theorem fold (accounts : first.Accounts history sampler) (now : Nat) :
    first.Accounts (history ++ [.report]) (sampler.fold now) := by
  have empty (metric : MetricType) :
      none = shelved (SampleTally.ofHistory metric (history ++ [.report])).waiting := by
    rw [SampleTally.ofHistory_concat]
    rfl
  have means (metric : MetricType) :=
    (congrArg SampleTally.means (SampleTally.ofHistory_concat metric history .report)).trans
      (SampleTally.means_report metric _)
  cases idle : sampler.isIdle with
  | true =>
    rw [Sampler.fold, idle, if_pos rfl]
    have none := (accounts.isIdle_iff.1 idle).2
    refine { accounts with waits := fun metric => ?_, stats := fun metric => ?_ }
    · rw [← empty, accounts.waits, none, shelved, if_pos rfl]
    · rw [means, if_pos (none metric), accounts.stats]
  | false =>
    rw [Sampler.fold, idle, if_neg Bool.false_ne_true]
    refine { accounts with waits := empty, stats := fun metric => ?_ }
    rw [metrics_foldSamples, accounts.waits, shelved, means]
    by_cases waiting : (SampleTally.ofHistory metric history).waiting = []
    · rw [if_pos waiting, if_pos waiting]
      exact accounts.stats metric
    · rw [if_neg waiting, if_neg waiting, ← record_statsOf, ← accounts.stats, ← accounts.config,
        ← accounts.ranges]
      rfl

end Accounts

/-- Captures and reports of one sampler, whose sources get other values or lose them. A report has its
place where it empties the buffers. A capture may be under way by then, with some sources still to be
read. -/
inductive Runs (behaviour : Job → Script Sampler Job Result) (first : Sampler) :
    List SamplerEvent → Sampler → Prop
  | start : Runs behaviour first [] first
  | set {history : List SamplerEvent} {sampler : Sampler} (index : Nat) (value : Option Float)
      (before : Runs behaviour first history sampler) :
      Runs behaviour first history (sampler.setSource index value)
  | read {history : List SamplerEvent} {sampler : Sampler} {source : MetricSource}
      (before : Runs behaviour first history sampler) (here : source ∈ sampler.sources) :
      Runs behaviour first (history ++ [.read source.metric source.value])
        { sampler with samples := buffer sampler.samples source }
  | capture {history : List SamplerEvent} {sampler : Sampler}
      (before : Runs behaviour first history sampler) :
      Runs behaviour first (history ++ sampler.readings) sampler.capture
  | report {history : List SamplerEvent} {sampler next : Sampler} {acts : List (Act Sampler)}
      {result : Except StoreError (Option WorkerSummary)}
      (before : Runs behaviour first history sampler)
      (enacts : Sampler.report.Enacts behaviour acts result) (folds : .changed sampler next ∈ acts) :
      Runs behaviour first (history ++ [.report]) next

/-- What a report does that finds a sampler. -/
theorem reports_iff :
    (report : Script Sampler Job _).Enacts behaviour acts result ∧ .changed sampler next ∈ acts ↔
      ∃ now written, acts = reportActs sampler now written ∧ result = reportResult sampler now written ∧
        next = sampler.fold now := by
  rw [enacts_report]
  constructor
  · rintro ⟨⟨found, now, written, rfl, rfl⟩, folds⟩
    obtain ⟨rfl, rfl⟩ := changed_mem_reportActs.1 folds
    exact ⟨now, written, rfl, rfl, rfl⟩
  · rintro ⟨now, written, rfl, rfl, rfl⟩
    exact ⟨⟨sampler, now, written, rfl, rfl⟩, changed_mem_reportActs.2 ⟨rfl, rfl⟩⟩

theorem Runs.accounts {workerId : String} {config : AssignmentConfig} {sources : List MetricSource}
    {history : List SamplerEvent} (run : Runs behaviour (ofSources workerId config sources) history sampler) :
    (ofSources workerId config sources).Accounts history sampler := by
  induction run with
  | start => exact .start ..
  | set index value _ ih => exact ih.set index value
  | read _ _ ih => exact ih.read _
  | capture _ ih => exact ih.capture
  | report _ enacts folds ih =>
    obtain ⟨now, _, _, _, rfl⟩ := reports_iff.1 ⟨enacts, folds⟩
    exact ih.fold now

end Sampler

end LeaseFleet
