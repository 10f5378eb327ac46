import Exchange.Machine.World
import Exchange.Point.Pass

/-!
The first step of each call. A call on a point may have to wait for another thread's pass, which is no step
at all; made from inside the pass it is put off or refused; else it changes the point at once and leaves
what remains to be done in a frame.
-/

namespace Exchange
set_option autoImplicit false

variable {M E K H : Type}

namespace Move

def answer (world : World M E K H) (stack : List (Frame M E K H)) (reply : Reply M K) : Move M E K H :=
  ⟨world, .resume reply, stack⟩

def acts (world : World M E K H) (stack : List (Frame M E K H)) (p : Nat) (todo : List (Act M E K))
    (reply : Reply M K) : Move M E K H :=
  ⟨world, .resume .done, .acts p todo reply :: stack⟩

def serve (world : World M E K H) (stack : List (Frame M E K H)) (p : Nat) : Move M E K H :=
  ⟨world, .resume .done, .serving p :: stack⟩

end Move

def Point.report (p : Nat) (point : Point M E K) (kind : Kind) (reason : Option String) : Act M E K :=
  .report point.sink kind (some (Point.label p)) reason

namespace World

/-- Registers an observer. Inside a pass that is refused; an ended point gives it the tombstone. -/
def register (w : World M E K H) (thread : Nat) (stack : List (Frame M E K H)) (p : Nat)
    (point : Point M E K) (interest : Interest) (code : K) : Option (Move M E K H) :=
  match point.phase.access thread with
  | .busy => none
  | .inside =>
    some (.acts w stack p
      [point.report p .reentrantCall (some Misuse.reentrantRegistration.label)]
      (.registered (.error .reentrantRegistration)))
  | .free =>
    if point.phase.isEnded then
      some (.acts w stack p [point.report p .lateRegistration none, .present code .tombstone]
        (.registered (.ok .inert)))
    else
      let point := { point with
        phase := point.phase.join (.observer point.nextId interest code), nextId := point.nextId + 1 }
      some (.answer { w with points := w.points.set p point } stack
        (.registered (.ok ⟨some p, point.nextId - 1⟩)))

/-- Takes back a registration, which may end the point. A handle does nothing once its point is gone. -/
def unregister (w : World M E K H) (thread : Nat) (stack : List (Frame M E K H)) (p : Nat)
    (point : Point M E K) (id : Nat) : Option (Move M E K H) :=
  if !w.isAlive p then some (.answer w stack .done)
  else match point.phase.access thread with
  | .busy => none
  | .inside => some (.answer (w.setPhase p (point.phase.postpone (.unregister id))) stack .done)
  | .free =>
    let phase := point.phase.remove id
    let w := w.setPhase p phase
    if phase.isEnded && !point.phase.isEnded then some (.serve w stack p) else some (.answer w stack .done)

/-- Registers a notice. Without interest it is given at once; after the end that is reported. -/
def atEnd (w : World M E K H) (thread : Nat) (stack : List (Frame M E K H)) (p : Nat)
    (point : Point M E K) (notice : Notice K) : Option (Move M E K H) :=
  let numbered (phase : Phase M E K) : World M E K H :=
    { w with points := w.points.set p { point with phase, nextTicket := point.nextTicket + 1 } }
  match point.phase.access thread with
  | .busy => none
  | .inside =>
    some (.answer (numbered (point.phase.postpone (.ending point.nextTicket notice))) stack .done)
  | .free =>
    if point.phase.isEnded then
      some (.acts (numbered point.phase) stack p
        [point.report p .lateInterestEnd none, .notify point.nextTicket notice] .done)
    else if point.phase.hasInterest then
      some (.answer (numbered (point.phase.join (.ending point.nextTicket notice))) stack .done)
    else some (.acts (numbered point.phase) stack p [.notify point.nextTicket notice] .done)

/-- Pushes an event. Inside a pass it is put off; after the end it is dropped with a report. -/
def push (w : World M E K H) (thread : Nat) (stack : List (Frame M E K H)) (p : Nat)
    (point : Point M E K) (event : Event M E) : Option (Move M E K H) :=
  match point.phase.access thread with
  | .busy => none
  | .inside => some (.answer (w.setPhase p (point.phase.postpone (.push event))) stack .done)
  | .free =>
    if point.phase.isEnded then
      some (.acts w stack p [point.report p .lateEvent (some event.lateName)] .done)
    else some (.serve (w.setPhase p (point.phase.openPass thread event)) stack p)

/-- Asks the responder for a sign of life, which never waits. -/
def poke (w : World M E K H) (stack : List (Frame M E K H)) (p : Nat) (point : Point M E K) :
    Move M E K H :=
  if point.phase.isEnded then .answer w stack .done
  else match point.pokeHandler with
    | some code => .acts w stack p [.run code] .done
    | none => .acts w stack p [point.report p .pokeUnsupported none] .done

/-- Binds a producer: its task is cancelled when interest ends, and spawned once that is settled. -/
def bind (w : World M E K H) (stack : List (Frame M E K H)) (p : Nat) (point : Point M E K)
    (name : String) (producer : K) (config : Config) (sink : Option (Sink K)) : Move M E K H :=
  let t := w.tasks.length
  let task := { name, point := p, config, sink := sink.getD point.sink, state := .unborn producer }
  .acts { w with tasks := w.tasks ++ [task] } stack p
    [.call (.atEnd p (.cancel t)), .announce name (Point.label p), .spawn t] (.task t)

/-- The first step of a call; none where it has to wait. -/
def perform (client : Client M E K H) (w : World M E K H) (thread : Nat)
    (stack : List (Frame M E K H)) (op : Op M E K) : Option (Move M E K H) :=
  let on (p : Nat) (call : Point M E K → Option (Move M E K H)) : Option (Move M E K H) :=
    match w.points[p]? with
    | some point => call point
    | none => some (.answer w stack .done)
  match op with
  | .create request sink =>
    some (.answer { w with points := w.points ++ [{ request, sink }] } stack (.point w.points.length))
  | .release p =>
    some (.answer { w with points := w.points.modify p ({ · with retained := false }) } stack .done)
  | .inspect p => on p fun point => some (.answer w stack (.view (point.view p)))
  | .register p interest code => on p fun point => w.register thread stack p point interest code
  | .unregister handle =>
    match handle.point with
    | some p => on p fun point => w.unregister thread stack p point handle.id
    | none => some (.answer w stack .done)
  | .atEnd p notice => on p fun point => w.atEnd thread stack p point notice
  | .push p event => on p fun point => w.push thread stack p point event
  | .poke p => on p fun point => some (w.poke stack p point)
  | .answerPoke p code =>
    let points := w.points.modify p fun point => { point with pokeHandler := some code }
    some (.answer { w with points } stack .done)
  | .emit p kind label reason =>
    on p fun point => some (.acts w stack p [.report point.sink kind label reason] .done)
  | .report sink kind label reason => some ⟨w, .act (.report sink kind label reason), stack⟩
  | .bind p name producer config sink =>
    on p fun point => some (w.bind stack p point name producer config sink)
  | .cancel t => some (.answer (w.cancel t) stack .done)
  | .watch t =>
    some (.answer w stack (match w.tasks[t]? with
      | some task => .taskView task.view
      | none => .done))
  | .time => some (.answer w stack (.time w.clock))
  | .attempt code =>
    some ⟨w, .eval ((client.routine code).bind fun _ => .ret .done), .catching :: stack⟩
  | .fork code wait =>
    let child := w.nextThread
    let routine := (client.routine code).bind fun _ => .ret .done
    let threads := w.threads.flatMap fun other =>
      if other.id = thread then [⟨child, .eval routine, []⟩, other] else [other]
    some ⟨{ w with threads, nextThread := child + 1 }, if wait then .await child else .resume .done,
      stack⟩

end World
end Exchange
