import LeaseFleet.Decimal.Text
import LeaseFleet.Stream.Identifier
import LeaseFleet.Text.Blank
import LeaseFleet.Utilization.Stats

/-!
# Processor quotas

What a container may use of the processor and what it has used, read from the files in which the
system accounts for it.
-/

namespace LeaseFleet.Quota

/-- The number of cores that a quota of microseconds per period grants; without a positive quota
there is no limit. -/
def cores (quota : Int) (period : Nat) : Option Float :=
  if 0 < quota && 0 < period then some (floatOfNat quota.toNat / floatOfNat period) else none

/-- The number of cores that a limit file grants: quota and period, or the word `max` for no
limit. -/
def coresOfText (text : String) : Option Float :=
  match Text.words text.toList with
  | quota :: period :: _ =>
    match Decimal.readSigned quota, Decimal.readWord period with
    | .ok quota, .ok period => cores quota period
    | _, _ => none
  | _ => none

/-- Why a usage file cannot be read. -/
inductive UsageError where
  | missing
  | malformed (cause : Decimal.IntegerError)
  deriving DecidableEq, Repr

def UsageError.message : UsageError → String
  | missing => "usage_usec missing from cpu.stat"
  | malformed cause => "failed to parse usage_usec: " ++ cause.message

/-- What stands before the number on the line of a usage file that counts. -/
def usageLabel : List Char := "usage_usec ".toList

/-- The used processor time in microseconds: the number on the first line with the label. -/
def usedMicros (text : String) : Except UsageError Nat :=
  let lines := StreamIdentifier.splitAtEvery '\n' text.toList
  match lines.findSome? (StreamIdentifier.dropBeginning usageLabel) with
  | none => .error .missing
  | some rest => (Decimal.readWord (Text.trimBlanks rest)).mapError .malformed

/-- Used processor time as a percentage of what was available, at most the whole of it. -/
def percentage (usedMicros elapsedMicros : Nat) (cores : Float) : Float :=
  let available := floatOfNat elapsedMicros * cores
  if available ≤ 0.0 then 0.0
  else
    let share := floatOfNat usedMicros / available * fullUtilization
    if share ≤ fullUtilization then share else fullUtilization

end LeaseFleet.Quota
