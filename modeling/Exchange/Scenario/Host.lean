import Exchange.Scenario.Action

/-!
The state of a scenario beside the exchange itself: which points it holds, its names for registrations, tasks
and sets, how often its callbacks were called, and the journal of what happened.
-/

namespace Exchange.Scenario
set_option autoImplicit false

inductive Result where
  | nothing
  | text (text : String)
  | registered (inert : Bool)
  | refused (error : Misuse)
  | state (ended interest : Bool)
  | setState (length : Nat) (name : String)
  | task (view : TaskView)
  | taskState (cancelled finished : Bool)
  | panicked (payload : Payload)
  | unknown (word : String)

inductive Note where
  | event (observer : String) (event : Event Message String)
  | diagnostic (sink : String) (diagnostic : Diagnostic)
  | record (record : Record)
  | bound (producer point : String)
  | started (producer : String) (cancelled : Bool)
  | polled (producer : String)
  | result (word : String) (result : Result)
  | ending (name : String)
  | rendering (message : String)
  | cancelled (producer : String) (cancelled : Bool)
  | poked (name : String)
  | threadPanic (payload : Payload)
  | text (text : String)

/-- The scenario's own state; the journal's last entry comes first. -/
structure Host where
  points : List Bool := []
  registrations : List (String × Handle) := []
  tasks : List (String × Nat) := []
  sets : List (String × List (Sink Callback)) := []
  counters : List Nat := []
  journal : List Note := []
  result : Result := .nothing

/-- Names a thing; an older one of that name is forgotten. -/
def store {α : Type} (name : String) (value : α) (table : List (String × α)) : List (String × α) :=
  (name, value) :: table.filter (·.1 ≠ name)

def forget {α : Type} (name : String) (table : List (String × α)) : List (String × α) :=
  table.filter (·.1 ≠ name)

namespace Host

def note (entry : Note) (host : Host) : Host := { host with journal := entry :: host.journal }

def addCounter (host : Host) : Host := { host with counters := host.counters ++ [0] }

def count (counter : Nat) (host : Host) : Host :=
  { host with counters := host.counters.modify counter (· + 1) }

mutual
/-- Makes a sink; each that notes gets a counter. A set that is named is copied as it is. -/
def makeSink (host : Host) : SinkSpec → Sink Callback × Host
  | .noting name on times actions =>
    (.client name (.noting name host.counters.length on times actions), host.addCounter)
  | .recorder => (.recorder, host)
  | .set members =>
    let (members, host) := makeSinks host members
    (.set members, host)
  | .named set => (.set ((host.sets.lookup set).getD []), host)

def makeSinks (host : Host) : List SinkSpec → List (Sink Callback) × Host
  | [] => ([], host)
  | sink :: sinks =>
    let (sink, host) := makeSink host sink
    let (sinks, host) := makeSinks host sinks
    (sink :: sinks, host)
end

end Host
end Exchange.Scenario
