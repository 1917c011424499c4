import LeaseFleet.Script.Query

/-!
# Scripts

What a worker does, as a tree of its elementary actions: questions to the surroundings, changes
of its own state, waiting, and starting other jobs. Whatever happens between two actions is up
to the one who runs the script, so a script stands for all of its interleavings. A change of
state is one indivisible action; it may wait until the state permits it, and it answers the
state that it found.
-/

namespace LeaseFleet

/-- A script over a local state `σ` that may start jobs and ends with a value. -/
inductive Script (σ Job α : Type) where
  | done (value : α)
  /-- Asks the surroundings. -/
  | ask (query : Query) (next : query.Reply → Script σ Job α)
  /-- Changes the local state as soon as it is ready, and goes on with the state found. -/
  | step (ready : σ → Bool) (change : σ → σ) (next : σ → Script σ Job α)
  /-- Waits for some milliseconds, or until the state says stop; goes on with whether the time
  was waited out. -/
  | sleep (millis : Nat) (stopped : σ → Bool) (next : Bool → Script σ Job α)
  /-- Starts a job that runs beside this script. -/
  | spawn (job : Job) (next : Script σ Job α)
  /-- Runs jobs side by side and goes on when all have ended. -/
  | gather (jobs : List Job) (next : Script σ Job α)

namespace Script

variable {σ τ Job Other α β γ : Type}

def bind : Script σ Job α → (α → Script σ Job β) → Script σ Job β
  | done value, following => following value
  | ask query next, following => ask query fun reply => (next reply).bind following
  | step ready change next, following =>
    step ready change fun found => (next found).bind following
  | sleep millis stopped next, following =>
    sleep millis stopped fun complete => (next complete).bind following
  | spawn job next, following => spawn job (next.bind following)
  | gather jobs next, following => gather jobs (next.bind following)

instance : Monad (Script σ Job) where
  pure := done
  bind := bind

@[simp] theorem done_bind (value : α) (following : α → Script σ Job β) :
    (done value).bind following = following value := rfl

theorem bind_done (script : Script σ Job α) : script.bind done = script := by
  induction script with
  | done => rfl
  | ask query next ih => simp [bind, ih]
  | step ready change next ih => simp [bind, ih]
  | sleep millis stopped next ih => simp [bind, ih]
  | spawn job next ih => simp [bind, ih]
  | gather jobs next ih => simp [bind, ih]

theorem bind_assoc (script : Script σ Job α) (first : α → Script σ Job β)
    (second : β → Script σ Job γ) :
    (script.bind first).bind second = script.bind fun value => (first value).bind second := by
  induction script with
  | done => rfl
  | ask query next ih => simp [bind, ih]
  | step ready change next ih => simp [bind, ih]
  | sleep millis stopped next ih => simp [bind, ih]
  | spawn job next ih => simp [bind, ih]
  | gather jobs next ih => simp [bind, ih]

/-! ## Elementary scripts -/

def query (question : Query) : Script σ Job question.Reply := ask question done

def call (storeCall : StoreCall) : Script σ Job storeCall.Reply := ask (.store storeCall) done

def look : Script σ Job σ := step (fun _ => true) id done

def change (f : σ → σ) : Script σ Job Unit := step (fun _ => true) f fun _ => done ()

def record (measurement : Measurement) : Script σ Job Unit := ask (.record measurement) done

def count (counter : Counter) (amount : Nat) : Script σ Job Unit :=
  record (.count counter amount)

def gauge (which : Gauge) (value : Float) : Script σ Job Unit := record (.level which value)

def gaugeNat (which : Gauge) (value : Nat) : Script σ Job Unit := gauge which (floatOfNat value)

def spawnAll : List Job → Script σ Job Unit
  | [] => done ()
  | job :: rest => spawn job (spawnAll rest)

/-! ## A script on a part of the state -/

/-- A part of a larger state. -/
structure Part (σ τ : Type) where
  get : σ → τ
  put : τ → σ → σ

/-- Runs a script on a part of the state, its jobs renamed. -/
def embed (part : Part σ τ) (rename : Other → Job) : Script τ Other α → Script σ Job α
  | done value => done value
  | ask question next => ask question fun reply => (next reply).embed part rename
  | step ready f next =>
    step (fun whole => ready (part.get whole)) (fun whole => part.put (f (part.get whole)) whole)
      fun whole => (next (part.get whole)).embed part rename
  | sleep millis stopped next =>
    sleep millis (fun whole => stopped (part.get whole)) fun complete =>
      (next complete).embed part rename
  | spawn job next => spawn (rename job) (next.embed part rename)
  | gather jobs next => gather (jobs.map rename) (next.embed part rename)

end Script

end LeaseFleet
