import Exchange.Machine.Program

/-!
The state of an exchange: points, tasks bound to them, the clock, the client's own state, and threads. A
thread has a control, what it is about to do, and a stack of frames, the calls and deliveries that it is in
the middle of. All that a call has still to do stands in its frame or in the phase of its point, never in code.
-/

namespace Exchange
set_option autoImplicit false

variable {M E K H : Type}

/-- Where a task is between its binding and its end. -/
inductive TaskState (K : Type) where
  /-- Its binding is under way. -/
  | unborn (producer : K)
  /-- It has not had a turn. -/
  | fresh (producer : K)
  | parked (producer : K) (wake : Wake)
  | running
  | over (outcome : Outcome)

namespace TaskState

def outcome? {K : Type} : TaskState K → Option Outcome
  | .over outcome => some outcome
  | _ => none

def isParked {K : Type} : TaskState K → Bool
  | .parked _ _ => true
  | _ => false

/-- A task holds its point from its binding to its end. -/
def holdsPoint {K : Type} : TaskState K → Bool
  | .unborn _ | .over _ => false
  | _ => true

end TaskState

/-- A producer bound to a point. The deadline is set when the producer is first asked. -/
structure Task (K : Type) where
  name : String
  point : Nat
  config : Config
  sink : Sink K
  state : TaskState K
  cancelled : Bool := false
  deadline : Option Nat := none

namespace Task

def view (task : Task K) : TaskView := ⟨task.name, task.cancelled, task.state.outcome?.isSome⟩

/-- The times for which a task waits that is parked: its own, and its deadline. -/
def timers (task : Task K) : List Nat :=
  match task.state with
  | .parked _ (.timed time) => time :: task.deadline.toList
  | .parked _ _ => task.deadline.toList
  | _ => []

end Task

inductive Act (M E K : Type) where
  | report (sink : Sink K) (kind : Kind) (label reason : Option String)
  | present (code : K) (event : Event M E)
  | notify (ticket : Nat) (notice : Notice K)
  | run (code : K)
  | call (op : Op M E K)
  | cancel (task : Nat)
  | announce (producer point : String)
  | spawn (task : Nat)

inductive Stage (K : Type) where
  | starting
  | polling
  /-- The producer's failure is being reported; `code` will render it. -/
  | announcing (code : K)
  | rendering
  | closing (outcome : Outcome)

inductive Frame (M E K H : Type) where
  /-- Code awaits the answer to its call. -/
  | caller (next : Reply M K → Code M E K H (Reply M K))
  /-- A call on a point has things left to do before it answers. -/
  | acts (point : Nat) (todo : List (Act M E K)) (answer : Reply M K)
  /-- The call owns the point's pass, or the deliveries after its end. -/
  | serving (point : Nat)
  /-- An entry of the point has its turn. -/
  | delivering (point : Nat)
  | receiving
  /-- A set hands a diagnostic to its members, one of which may be left out; `next` comes next. -/
  | fanOut (members : List (Sink K)) (skip : Option Nat) (next : Nat) (diagnostic : Diagnostic)
  | turn (task : Nat) (stage : Stage K)
  /-- A panic ends here and is handed to the caller. -/
  | catching

inductive Control (M E K H : Type) where
  | eval (code : Code M E K H (Reply M K))
  | perform (op : Op M E K)
  | act (act : Act M E K)
  | deliver (sink : Sink K) (diagnostic : Diagnostic)
  | resume (reply : Reply M K)
  | unwind (payload : Payload)
  /-- Waits for the end of another thread, whose panic becomes its own. -/
  | await (thread : Nat)

structure Thread (M E K H : Type) where
  id : Nat
  control : Control M E K H
  stack : List (Frame M E K H) := []

namespace Thread

/-- Nothing is left to do; a panic that reached the thread's end counts. -/
def isOver (thread : Thread M E K H) : Bool :=
  match thread.stack, thread.control with
  | [], .resume _ | [], .unwind _ => true
  | _, _ => false

end Thread

/-- The state of an exchange. `ready` lists the tasks whose turn comes, first come first. -/
structure World (M E K H : Type) where
  host : H
  points : List (Point M E K) := []
  tasks : List (Task K) := []
  ready : List Nat := []
  clock : Nat := 0
  nextSeq : Nat := 0
  threads : List (Thread M E K H) := []
  nextThread : Nat := 0

def Frame.holdsPoint (p : Nat) : Frame M E K H → Bool
  | .acts q _ _ | .serving q | .delivering q => q = p
  | _ => false

def Control.holdsPoint (p : Nat) : Control M E K H → Bool
  | .perform (.register q _ _) | .perform (.atEnd q _) | .perform (.push q _) => q = p
  | _ => false

def Thread.holdsPoint (p : Nat) (thread : Thread M E K H) : Bool :=
  thread.control.holdsPoint p || thread.stack.any (Frame.holdsPoint p)

def Frame.serves (p : Nat) : Frame M E K H → Bool
  | .serving q => q = p
  | _ => false

def taskOf : List (Frame M E K H) → Option Nat
  | [] => none
  | .turn t _ :: _ => some t
  | _ :: stack => taskOf stack

namespace World

def setPhase (p : Nat) (phase : Phase M E K) (w : World M E K H) : World M E K H :=
  { w with points := w.points.modify p fun point => { point with phase } }

def modifyTask (t : Nat) (change : Task K → Task K) (w : World M E K H) : World M E K H :=
  { w with tasks := w.tasks.modify t change }

/-- A point lives while the client, a call or an unfinished task holds it. -/
def isAlive (w : World M E K H) (p : Nat) : Bool :=
  w.points[p]?.any (·.retained) || w.threads.any (Thread.holdsPoint p) ||
    w.tasks.any fun task => task.point = p && task.state.holdsPoint

def diagnose (w : World M E K H) (kind : Kind) (label reason : Option String) :
    Diagnostic × World M E K H :=
  (⟨kind, label, reason, w.nextSeq⟩, { w with nextSeq := w.nextSeq + 1 })

/-- A task that is parked becomes ready, unless it already is. -/
def wake (t : Nat) (w : World M E K H) : World M E K H :=
  if w.tasks[t]?.any (·.state.isParked) && !w.ready.contains t then { w with ready := w.ready ++ [t] }
  else w

/-- Cancels a task; one that waits gets a turn to see it. -/
def cancel (t : Nat) (w : World M E K H) : World M E K H :=
  match w.tasks[t]? with
  | some task =>
    if task.cancelled then w else (w.modifyTask t fun task => { task with cancelled := true }).wake t
  | none => w

def producerOf (w : World M E K H) (stack : List (Frame M E K H)) : Option String :=
  (taskOf stack).bind fun t => w.tasks[t]?.map (·.name)

end World

structure Move (M E K H : Type) where
  world : World M E K H
  control : Control M E K H
  stack : List (Frame M E K H)

end Exchange
