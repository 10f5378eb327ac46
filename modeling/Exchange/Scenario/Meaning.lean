import Exchange.Scenario.Host

/-!
What the actions of a scenario do, as code over its state, and the client that gives its callbacks their
meaning.
-/

namespace Exchange.Scenario
set_option autoImplicit false

/-- Code of a scenario. -/
abbrev Procedure (α : Type) := Code Message String Callback Host α

namespace Procedure

def call (op : Op Message String Callback) : Procedure (Reply Message Callback) := Code.call op .ret

def update (change : Host → Host) : Procedure Unit := Code.host change fun _ => .ret ()

def host : Procedure Host := Code.host id .ret

def note (entry : Note) : Procedure Unit := update (Host.note entry)

/-- Does something with a point that the scenario holds. -/
def withPoint (p : Nat) (act : Procedure Result) : Procedure Result := do
  if (← host).points[p]? = some true then act else return .text "no point"

def withView (p : Nat) (result : View Callback → Result) : Procedure Result :=
  withPoint p do
    match ← call (.inspect p) with
    | .view view => return result view
    | _ => return .nothing

def withTask (name : String) (act : Nat → Procedure Result) : Procedure Result := do
  match (← host).tasks.lookup name with
  | some t => act t
  | none => return .text "no task"

def withTaskView (name : String) (result : TaskView → Result) : Procedure Result :=
  withTask name fun t => do
    match ← call (.watch t) with
    | .taskView view => return result view
    | _ => return .nothing

def withSet (name : String) (act : List (Sink Callback) → Procedure Result) : Procedure Result := do
  match (← host).sets.lookup name with
  | some members => act members
  | none => return .text "no set"

def makeSink (spec : SinkSpec) : Procedure (Sink Callback) :=
  Code.host (fun host => (host.makeSink spec).2) fun host => .ret (host.makeSink spec).1

def makeSinks (specs : List SinkSpec) : Procedure (List (Sink Callback)) :=
  Code.host (fun host => (host.makeSinks specs).2) fun host => .ret (host.makeSinks specs).1

def newCounter : Procedure Nat := Code.host Host.addCounter fun host => .ret host.counters.length

/-- Counts a call and gives the number of those before it. -/
def count (counter : Nat) : Procedure Nat :=
  Code.host (Host.count counter) fun host => .ret (host.counters[counter]?.getD 0)

end Procedure

open Procedure

def shownTask (view : TaskView) : Text.Shown :=
  .record "BoundTask" [("name", .ofString view.name), ("cancelled", .ofBool view.cancelled),
    ("finished", .ofBool view.finished)]

def perform : Action → Procedure Result
  | .point request spec => do
    let sink ← makeSink spec
    match ← call (.create request sink) with
    | .point p =>
      update fun host => { host with points := host.points ++ [true] }
      return .text (Point.label p)
    | _ => return .nothing
  | .dropPoint p => withPoint p do
    update fun host => { host with points := host.points.set p false }
    let _ ← call (.release p)
    return .nothing
  | .register p name interest calls rest => withPoint p do
    let counter ← newCounter
    match ← call (.register p interest (.observer name counter calls rest)) with
    | .registered (.ok handle) =>
      update fun host => { host with registrations := store name handle host.registrations }
      return .registered handle.isInert
    | .registered (.error error) => return .refused error
    | _ => return .nothing
  | .unregister name => do
    match (← host).registrations.lookup name with
    | some handle =>
      let _ ← call (.unregister handle)
      return .nothing
    | none => return .text "no registration"
  | .showRegistration name onLines => do
    match (← host).registrations.lookup name with
    | some handle => return .text (handle.shown.text onLines)
    | none => return .text "no registration"
  | .interestEnd p name actions => withPoint p do
    let _ ← call (.atEnd p (.run (.ending name actions)))
    return .nothing
  | .push p message isLast => withPoint p do
    let _ ← call (.push p (.ofResponse message isLast))
    return .nothing
  | .pushError p error => withPoint p do
    let _ ← call (.push p (.ofError error))
    return .nothing
  | .poke p => withPoint p do
    let _ ← call (.poke p)
    return .nothing
  | .answerPoke p name actions => withPoint p do
    let _ ← call (.answerPoke p (.poked name actions))
    return .nothing
  | .state p => withView p fun view => .state view.isEnded view.hasInterest
  | .showPoint p onLines => withView p fun view => .text (view.shown.text onLines)
  | .request p => withView p fun view => .text view.request
  | .label p => withView p fun view => .text (Point.label view.number)
  | .sinkName p => withView p fun view => .text view.sink.name
  | .emit p kind label reason => withPoint p do
    let _ ← call (.emit p kind label reason)
    return .nothing
  | .emitToSet name kind label reason => withSet name fun members => do
    let _ ← call (.report (.set members) kind label reason)
    return .nothing
  | .newSet name specs => do
    let sinks ← makeSinks specs
    update fun host => { host with sets := store name sinks host.sets }
    return .nothing
  | .cloneSet name source => withSet source fun members => do
    update fun host => { host with sets := store name members host.sets }
    return .nothing
  | .pushToSet name spec => withSet name fun _ => do
    let sink ← makeSink spec
    update fun host =>
      { host with sets := store name ((host.sets.lookup name).getD [] ++ [sink]) host.sets }
    return .nothing
  | .inspectSet name => withSet name fun members => return .setState members.length (Sink.set members).name
  | .log text => do
    note (.text text)
    return .nothing
  | .panic payload => .panic payload
  | .attempt actions => do
    match ← call (.attempt (.block actions)) with
    | .caught (some payload) => return .panicked payload
    | _ => return .nothing
  | .onThread actions => do
    let _ ← call (.fork (.block actions) true)
    return .nothing
  | .laterThread actions => do
    let _ ← call (.fork (.block actions) false)
    return .nothing
  | .bind p name task atStart script config spec => withPoint p do
    let sink ← match spec with
      | some spec => some <$> makeSink spec
      | none => pure none
    match ← call (.bind p name (.producer name atStart script) config sink) with
    | .task t =>
      update fun host => { host with tasks := store task t host.tasks }
      match ← call (.watch t) with
      | .taskView view => return .task view
      | _ => return .nothing
    | _ => return .nothing
  | .cancelTask name => withTask name fun t => do
    let _ ← call (.cancel t)
    return .nothing
  | .taskState name => withTaskView name fun view => .taskState view.cancelled view.finished
  | .showTask name onLines => withTaskView name fun view => .text ((shownTask view).text onLines)
  | .dropTask name => withTask name fun _ => do
    update fun host => { host with tasks := forget name host.tasks }
    return .nothing
  | .unknown word => return .unknown word

/-- Does an action inside a list, noting what it comes to. -/
def performNoted (action : Action) : Procedure Unit := do
  match ← perform action with
  | .nothing => return ()
  | result => note (.result action.word result)

def performAll : List Action → Procedure Unit
  | [] => return ()
  | action :: actions => do
    performNoted action
    performAll actions

/-- Runs a script until it waits or ends. -/
def runScript (name : String) (task : Nat) : List Line → Procedure (Progress Callback)
  | [] => return .done (.ok ())
  | .act action :: lines => do
    performNoted action
    runScript name task lines
  | .yield :: lines => return .waiting .soon (.rest name none lines)
  | .sleep millis :: lines => do
    match ← call .time with
    | .time now =>
      if millis = 0 then runScript name task lines
      else return .waiting (.timed (now + millis)) (.rest name (some (now + millis)) lines)
    | _ => return .waiting .never (.rest name none lines)
  | .pending :: lines => return .waiting .never (.rest name none (.pending :: lines))
  | .waitCancel :: lines => do
    match ← call (.watch task) with
    | .taskView view =>
      if view.cancelled then runScript name task lines
      else return .waiting .never (.rest name none (.waitCancel :: lines))
    | _ => return .waiting .never (.rest name none lines)
  | .cancelled :: lines => do
    if let .taskView view ← call (.watch task) then note (.cancelled name view.cancelled)
    runScript name task lines
  | .finish result :: _ => return .done result

/-- What an observer does with an event: its reactions come in turn, then the last one always. -/
def observe (name : String) (counter : Nat) (calls : List Reaction) (rest : Option Reaction)
    (event : Event Message String) : Procedure Bool := do
  let n ← count counter
  note (.event name event)
  match calls[n]? <|> rest with
  | some (.mk keep actions) =>
    performAll actions
    return keep.getD !event.isLast
  | none => return !event.isLast

/-- What a sink that notes does with a diagnostic. -/
def receive (name : String) (counter : Nat) (on : Option (List String)) (times : Option Nat)
    (actions : Option (List Action)) (diagnostic : Diagnostic) : Procedure Unit := do
  note (.diagnostic name diagnostic)
  match actions with
  | some actions =>
    if on.all (·.contains diagnostic.kind.label) then
      let n ← count counter
      if times.all (n < ·) then performAll actions
  | none => return ()

/-- The meaning of a scenario's callbacks. A plain one has one answer for all failures. -/
def client (plain : Bool) : Client Message String Callback Host where
  observer
    | .observer name counter calls rest, event => observe name counter calls rest event
    | _, _ => return false
  routine
    | .ending name actions => do
      note (.ending name)
      performAll actions
    | .poked name actions => do
      note (.poked name)
      performAll actions
    | .block actions => performAll actions
    | _ => return ()
  sink
    | .noting name counter on times actions, diagnostic =>
      receive name counter on times actions diagnostic
    | _, _ => return ()
  start
    | .producer name atStart script, task => do
      if let .taskView view ← call (.watch task) then note (.started name view.cancelled)
      performAll atStart
      return .script name script
    | code, _ => return code
  poll
    | .script name lines, task => do
      note (.polled name)
      runScript name task lines
    | .rest name (some time) lines, task => do
      match ← call .time with
      | .time now =>
        if now < time then return .waiting (.timed time) (.rest name (some time) lines)
        else runScript name task lines
      | _ => return .waiting .never (.rest name none lines)
    | .rest name none lines, task => runScript name task lines
    | _, _ => return .done (.ok ())
  render
    | .renderer message actions result => do
      note (.rendering message)
      performAll actions
      return result
    | _ => return .ok none
  internalError := if plain then ⟨500, some "plain"⟩ else ⟨500, none⟩
  timeout := if plain then ⟨500, some "plain"⟩ else ⟨504, some "timeout"⟩
  record record host := host.note (.record record)
  bound producer point host := host.note (.bound producer point)

end Exchange.Scenario
