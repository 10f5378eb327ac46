import Exchange.Binding.Config
import Exchange.Binding.Outcome
import Exchange.Point.Basic

/-!
Code of the client: observers, notices, producers, sinks and the client's own calls. Code is a sequence of
calls on points and tasks, of changes to the client's own state, and of panics; what it does next may depend
on every answer. Code that is handed over is named by a value of `K`, which a `Client` gives its meaning.
-/

namespace Exchange
set_option autoImplicit false

inductive Payload where
  | text (message : String)
  | other
deriving DecidableEq

/-- What is said of a panic whose payload is not a text. -/
def Payload.info : Payload → String
  | .text message => message
  | .other => "unknown panic"

/-- When a producer that waits is to be asked again. -/
inductive Wake where
  /-- Once all tasks that are ready have had their turn. -/
  | soon
  /-- At that time of the clock. -/
  | timed (time : Nat)
  /-- When it is cancelled or its time is up. -/
  | never
deriving DecidableEq

inductive Progress (K : Type) where
  | done (result : Except (ProducerFailure K) Unit)
  | waiting (wake : Wake) (rest : K)

structure TaskView where
  name : String
  cancelled : Bool
  finished : Bool
deriving DecidableEq

/-- What a client can ask for. Points and tasks go by their numbers in the order of creation. -/
inductive Op (M E K : Type) where
  | create (request : String) (sink : Sink K)
  | release (point : Nat)
  | inspect (point : Nat)
  | register (point : Nat) (interest : Interest) (code : K)
  | unregister (handle : Handle)
  | atEnd (point : Nat) (notice : Notice K)
  | push (point : Nat) (event : Event M E)
  | poke (point : Nat)
  | answerPoke (point : Nat) (code : K)
  | emit (point : Nat) (kind : Kind) (label reason : Option String)
  | report (sink : Sink K) (kind : Kind) (label reason : Option String)
  /-- Starts a producer as a task bound to the point's interest. -/
  | bind (point : Nat) (name : String) (producer : K) (config : Config) (sink : Option (Sink K))
  | cancel (task : Nat)
  | watch (task : Nat)
  | time
  | attempt (code : K)
  | fork (code : K) (wait : Bool)

/-- The point whose pass the call waits for if it belongs to another thread. -/
def Op.waitsFor? {M E K : Type} : Op M E K → Option Nat
  | .register p _ _ | .atEnd p _ | .push p _ => some p
  | .unregister handle => handle.point
  | _ => none

inductive Reply (M K : Type) where
  | done
  | point (number : Nat)
  | view (view : View K)
  | registered (result : Except Misuse Handle)
  | task (number : Nat)
  | taskView (view : TaskView)
  | time (now : Nat)
  | caught (panic : Option Payload)
  | keep (stays : Bool)
  | future (code : K)
  | progress (progress : Progress K)
  | rendered (result : Except RenderingFailure (Option M))

/-- Code that gives a value of `α`, over a state `H` of the client's own. -/
inductive Code (M E K H α : Type) where
  | ret (value : α)
  | panic (payload : Payload)
  /-- Changes the state; what follows sees the state before the change. -/
  | host (change : H → H) (next : H → Code M E K H α)
  | call (op : Op M E K) (next : Reply M K → Code M E K H α)

namespace Code
variable {M E K H α β : Type}

def bind (code : Code M E K H α) (next : α → Code M E K H β) : Code M E K H β :=
  match code with
  | .ret value => next value
  | .panic payload => .panic payload
  | .host change k => .host change fun state => (k state).bind next
  | .call op k => .call op fun reply => (k reply).bind next

instance : Monad (Code M E K H) where
  pure := .ret
  bind := .bind

end Code

/-- A client: the meaning of its code, the responses it stands for, and its records. -/
structure Client (M E K H : Type) where
  /-- An observer is given an event and says whether it stays. -/
  observer : K → Event M E → Code M E K H Bool
  /-- Notices, poke handlers, and code run for its own sake. -/
  routine : K → Code M E K H Unit
  sink : K → Diagnostic → Code M E K H Unit
  /-- A producer is started once and gives the code that is asked for its progress. -/
  start : K → Nat → Code M E K H K
  poll : K → Nat → Code M E K H (Progress K)
  render : K → Code M E K H (Except RenderingFailure (Option M))
  internalError : M
  timeout : M
  /-- What becomes of a record, and of the news that a task is bound to a point. -/
  record : Record → H → H
  bound : String → String → H → H

end Exchange
