import Exchange.Machine.Schedule
import Exchange.Scenario.Meaning

/-!
Playing a scenario: its steps one after the other, each with its result, what the journal gained, and how the
points then stand.
-/

namespace Exchange.Scenario
set_option autoImplicit false

/-- The exchange of a scenario. -/
abbrev State := World Message String Callback Host

abbrev Player := Client Message String Callback Host

/-- What a step shows: its result, its part of the journal, and every point that is still held. -/
structure Outline where
  result : Result
  journal : List Note
  points : List (Option (View Callback))

def State.empty : State :=
  { host := {}, threads := [⟨World.mainThread, .resume .done, []⟩], nextThread := 1 }

/-- More steps than any scenario takes that comes to an end. -/
def fuel : Nat := 1000000000

/-- The longest time for which a task is waited for, a year in milliseconds. -/
def patience : Nat := 365 * 24 * 60 * 60 * 1000

def modifyHost (change : Host → Host) (state : State) : State := { state with host := change state.host }

def setResult (result : Result) : State → State := modifyHost fun host => { host with result }

/-- Runs until the clock has come to the limit, or `stop` holds; then all that is ready. -/
def runUntil (client : Player) (limit : Nat) (stop : State → Bool) (state : State) : State :=
  World.settle client fuel fuel (World.runUntil client fuel limit stop fuel state)

/-- Does an action, and leaves its result in the scenario's state. -/
def act (client : Player) (action : Action) (state : State) : State :=
  let code : Procedure Unit := do
    let result ← perform action
    Procedure.update fun host => { host with result }
  let state := World.execute client fuel code state
  match state.threads.find? (·.id = World.mainThread) with
  | some ⟨_, .unwind payload, _⟩ => setResult (.panicked payload) state
  | _ => state

/-- Waits for a task until it is over, or for a year, and forgets it. -/
def join (client : Player) (name : String) (state : State) : State :=
  match state.host.tasks.lookup name with
  | none => setResult (.text "no task") state
  | some t =>
    let outcome? (state : State) : Option Outcome := state.tasks[t]?.bind (·.state.outcome?)
    let state := modifyHost (fun host => { host with tasks := forget name host.tasks }) state
    let state := runUntil client (state.clock + patience) (fun state => (outcome? state).isSome) state
    setResult (.text (((outcome? state).map Outcome.label).getD "stuck")) state

def advance (client : Player) : Step → State → State
  | .act action => act client action
  | .settle => World.settle client fuel fuel
  | .run millis => fun state => runUntil client (state.clock + millis) (fun _ => false) state
  | .join name => join client name

/-- The panics with which other threads ended, in the order in which the threads were begun. -/
def panics (state : State) : List Payload :=
  let ended := state.threads.filterMap fun thread =>
    match thread with
    | ⟨id, .unwind payload, []⟩ => if id = World.mainThread then none else some (id, payload)
    | _ => none
  (ended.mergeSort fun first second => first.1 ≤ second.1).map (·.2)

/-- Notes the panics of the other threads and lets go of those that are over. -/
def reap (state : State) : State :=
  let noted := modifyHost
    (fun host => (panics state).foldl (fun host payload => host.note (.threadPanic payload)) host) state
  { noted with threads := noted.threads.filter fun thread =>
      thread.id = World.mainThread || !thread.isOver }

def outline (state : State) : Outline where
  result := state.host.result
  journal := state.host.journal.reverse
  points := state.host.points.mapIdx fun p held =>
    if held then state.points[p]?.map (·.view p) else none

def playFrom (client : Player) : State → List Step → List Outline
  | _, [] => []
  | state, step :: steps =>
    let fresh := modifyHost (fun host => { host with journal := [], result := .nothing }) state
    let state := reap (advance client step fresh)
    outline state :: playFrom client state steps

/-- Plays a scenario from the beginning. -/
def play (plain : Bool) (steps : List Step) : List Outline := playFrom (client plain) .empty steps

end Exchange.Scenario
