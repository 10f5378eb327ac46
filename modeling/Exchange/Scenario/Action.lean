import Exchange.Machine.Program

/-!
Scenarios: lists of actions on points, registrations, tasks and sets of sinks, which go by names and numbers.
Callbacks hold lists of actions themselves; producers run scripts, which may also wait.
-/

namespace Exchange.Scenario
set_option autoImplicit false

structure Message where
  code : Int
  body : Option String
deriving DecidableEq

mutual
inductive Action where
  | point (request : String) (sink : SinkSpec)
  | dropPoint (p : Nat)
  | register (p : Nat) (name : String) (interest : Interest) (calls : List Reaction)
      (rest : Option Reaction)
  | unregister (name : String)
  | showRegistration (name : String) (onLines : Bool)
  | interestEnd (p : Nat) (name : String) (actions : List Action)
  | push (p : Nat) (message : Message) (isLast : Bool)
  | pushError (p : Nat) (error : String)
  | poke (p : Nat)
  | answerPoke (p : Nat) (name : String) (actions : List Action)
  | state (p : Nat)
  | showPoint (p : Nat) (onLines : Bool)
  | request (p : Nat)
  | label (p : Nat)
  | sinkName (p : Nat)
  | emit (p : Nat) (kind : Kind) (label reason : Option String)
  | emitToSet (name : String) (kind : Kind) (label reason : Option String)
  | newSet (name : String) (sinks : List SinkSpec)
  | cloneSet (name source : String)
  | pushToSet (name : String) (sink : SinkSpec)
  | inspectSet (name : String)
  | log (text : String)
  | panic (payload : Payload)
  | attempt (actions : List Action)
  | onThread (actions : List Action)
  | laterThread (actions : List Action)
  /-- Binds with settings and a sink of its own, or with neither. -/
  | bind (p : Nat) (name task : String) (atStart : List Action) (script : List Line)
      (config : Config) (sink : Option SinkSpec)
  | cancelTask (name : String)
  | taskState (name : String)
  | showTask (name : String) (onLines : Bool)
  | dropTask (name : String)
  | unknown (name : String)

inductive Reaction where
  | mk (keep : Option Bool) (actions : List Action)

/-- A sink to be made. One that notes what it is given may act on some kinds, a limited number of times. -/
inductive SinkSpec where
  | noting (name : String) (on : Option (List String)) (times : Option Nat)
      (actions : Option (List Action))
  | recorder
  | set (members : List SinkSpec)
  | named (set : String)

/-- One line of a producer's script. -/
inductive Line where
  | act (action : Action)
  | yield
  | sleep (millis : Nat)
  | pending
  | waitCancel
  | cancelled
  | finish (result : Except (ProducerFailure Callback) Unit)

/-- Code that a scenario hands over. Observers and sinks bear the number of their counter. -/
inductive Callback where
  | observer (name : String) (counter : Nat) (calls : List Reaction) (rest : Option Reaction)
  | ending (name : String) (actions : List Action)
  | poked (name : String) (actions : List Action)
  | block (actions : List Action)
  | noting (name : String) (counter : Nat) (on : Option (List String)) (times : Option Nat)
      (actions : Option (List Action))
  | producer (name : String) (atStart : List Action) (script : List Line)
  /-- A script not begun, and one that goes on, perhaps not before a time. -/
  | script (name : String) (lines : List Line)
  | rest (name : String) (notBefore : Option Nat) (lines : List Line)
  | renderer (message : String) (actions : List Action) (result : Except RenderingFailure (Option Message))
end

/-- What the top level of a scenario consists of: actions, and leave for tasks to run. -/
inductive Step where
  | act (action : Action)
  | settle
  | run (millis : Nat)
  | join (name : String)

namespace Action

/-- The word for an action, by which a scenario calls it. -/
def word : Action → String
  | .point _ _ => "point"
  | .dropPoint _ => "drop_point"
  | .register _ _ _ _ _ => "register"
  | .unregister _ => "unregister"
  | .showRegistration _ _ => "reg_debug"
  | .interestEnd _ _ _ => "interest_end"
  | .push _ _ _ => "push"
  | .pushError _ _ => "push_error"
  | .poke _ => "poke"
  | .answerPoke _ _ _ => "on_poke"
  | .state _ => "state"
  | .showPoint _ _ => "debug"
  | .request _ => "request"
  | .label _ => "label"
  | .sinkName _ => "sink_name"
  | .emit _ _ _ _ | .emitToSet _ _ _ _ => "emit"
  | .newSet _ _ => "set_new"
  | .cloneSet _ _ => "set_clone"
  | .pushToSet _ _ => "set_push"
  | .inspectSet _ => "set_info"
  | .log _ => "log"
  | .panic _ => "panic"
  | .attempt _ => "try"
  | .onThread _ => "on_thread"
  | .laterThread _ => "later_thread"
  | .bind _ _ _ _ _ _ _ => "bind"
  | .cancelTask _ => "task_cancel"
  | .taskState _ => "task_state"
  | .showTask _ _ => "task_debug"
  | .dropTask _ => "task_drop"
  | .unknown name => name

end Action
end Exchange.Scenario
