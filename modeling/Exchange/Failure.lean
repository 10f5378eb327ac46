import Exchange.Text.Quoted

/-!
Failures: misuse of a point, a failure that could not be rendered, and the ways in which a producer can
fail. A producer's failure may wrap a cause, causes may wrap further causes, and the explanation of a
failure lists the texts of all of them.
-/

namespace Exchange
open Text
set_option autoImplicit false

inductive Misuse where
  | reentrantRegistration
deriving DecidableEq

namespace Misuse

def label : Misuse → String
  | .reentrantRegistration => "usage_reentrant_registration"

def message : Misuse → String
  | .reentrantRegistration => "observer registered from inside its own dispatch"

def shown : Misuse → Shown
  | .reentrantRegistration => .atom "ReentrantRegistration"

end Misuse

/-- A renderable failure that gave no response. -/
inductive RenderingFailure where
  | empty
  | failed (reason : String)
  | panicked (info : String)
deriving DecidableEq, Inhabited

namespace RenderingFailure

def label : RenderingFailure → String
  | .empty => "render_empty"
  | .failed _ => "render_failed"
  | .panicked _ => "render_panicked"

def message : RenderingFailure → String
  | .empty => "renderable failure produced no response"
  | .failed reason => "rendering failed: " ++ reason
  | .panicked info => "rendering panicked: " ++ info

def shown : RenderingFailure → Shown
  | .empty => .atom "Empty"
  | .failed reason => .record "Failed" [("reason", .ofString reason)]
  | .panicked info => .record "Panicked" [("info", .ofString info)]

end RenderingFailure

/-- A failure that knows how to express itself as a response: `respond` names the code that does. -/
structure Renderable (K : Type) where
  message : String
  respond : K

mutual
/-- What lies behind a failure that nothing renders. -/
inductive Cause (K : Type) where
  | text (message : String)
  | usage (error : Misuse)
  | render (error : RenderingFailure)
  | produce (error : ProducerFailure K)
  /-- An error of the client's own, without and with a further cause. -/
  | custom (message : String)
  | wrapped (message : String) (source : Cause K)

inductive ProducerFailure (K : Type) where
  | render (failure : Renderable K)
  | canceled
  | fail (cause : Cause K)
end

variable {K : Type}

mutual
/-- The cause's own text, without those of further causes. -/
def Cause.message : Cause K → String
  | .text message => message
  | .usage error => error.message
  | .render error => error.message
  | .produce error => error.message
  | .custom message => message
  | .wrapped message _ => message

def ProducerFailure.message : ProducerFailure K → String
  | .render failure => "renderable failure: " ++ failure.message
  | .canceled => "producer cancelled"
  | .fail cause => "producer failed: " ++ cause.message
end

mutual
def Cause.shown : Cause K → Shown
  | .text message => .ofString message
  | .usage error => error.shown
  | .render error => error.shown
  | .produce error => error.shown
  | .custom message => .atom ("E(" ++ quoted message ++ ")")
  | .wrapped message _ => .atom ("E(" ++ quoted message ++ ")")

def ProducerFailure.shown : ProducerFailure K → Shown
  | .render failure => .tuple "Render" [.atom ("R(" ++ quoted failure.message ++ ")")]
  | .canceled => .atom "Canceled"
  | .fail cause => .tuple "Fail" [cause.shown]
end

namespace Cause

/-- The cause and those behind it, nearest first. -/
def trail : Cause K → List (Cause K)
  | .produce (.fail inner) => .produce (.fail inner) :: inner.trail
  | .wrapped message inner => .wrapped message inner :: inner.trail
  | cause => [cause]

/-- The texts of the cause and of all behind it, in one line. -/
def explanation : Cause K → String
  | .produce (.fail inner) => "producer failed: " ++ inner.message ++ ": " ++ inner.explanation
  | .wrapped message inner => message ++ ": " ++ inner.explanation
  | cause => cause.message

end Cause

namespace ProducerFailure

def label : ProducerFailure K → String
  | .render _ => "produce_renderable"
  | .canceled => "produce_canceled"
  | .fail _ => "produce_failed"

def isCanceled : ProducerFailure K → Bool
  | .canceled => true
  | _ => false

def sources : ProducerFailure K → List (Cause K)
  | .fail cause => cause.trail
  | _ => []

/-- The failure with all that lies behind it. -/
def explanation : ProducerFailure K → String
  | .render failure => "renderable: " ++ failure.message
  | .canceled => "cancelled"
  | .fail cause => "error: " ++ cause.explanation

end ProducerFailure
end Exchange
