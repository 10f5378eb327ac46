import Exchange.Diagnostic.Kind
import Exchange.Duration
import Exchange.Failure

/-!
How a bound producer ends, and what that asks of its binding: what to report and which final response to
push. A binding never answers for a producer that completed or was cancelled.
-/

namespace Exchange
set_option autoImplicit false

inductive Outcome where
  | completed
  | rendered
  | renderFailed
  | failed
  | panicked
  | timedOut
  | canceled
deriving DecidableEq

namespace Outcome

def label : Outcome → String
  | .completed => "completed"
  | .rendered => "rendered"
  | .renderFailed => "render_failed"
  | .failed => "failed"
  | .panicked => "panicked"
  | .timedOut => "timed_out"
  | .canceled => "canceled"

/-- Whether the binding answers for the producer: unless it completed or was cancelled. -/
def answered : Outcome → Bool
  | .completed | .canceled => false
  | _ => true

end Outcome

/-- An outcome with what is known of it: the end of a producer and of the rendering of its failure. -/
inductive Ending (M K : Type) where
  | completed
  | canceled
  | timedOut (limit : Duration)
  | panicked (info : String)
  | failed (cause : Cause K)
  | rendered (response : M)
  | renderFailed (error : RenderingFailure)

namespace Ending
variable {M K : Type}

def outcome : Ending M K → Outcome
  | .completed => .completed
  | .canceled => .canceled
  | .timedOut _ => .timedOut
  | .panicked _ => .panicked
  | .failed _ => .failed
  | .rendered _ => .rendered
  | .renderFailed _ => .renderFailed

/-- The closing report with its reason, if there is one. -/
def report : Ending M K → Option (Kind × Option String)
  | .completed | .rendered _ => none
  | .canceled => some (.producerCanceled, none)
  | .timedOut limit => some (.producerTimedOut, some limit.text)
  | .panicked info => some (.producerPanicked, some info)
  | .failed cause => some (.producerFailed, some cause.explanation)
  | .renderFailed error => some (.renderFailed, some error.message)

/-- The final response pushed on the producer's behalf, if there is one. -/
def response (internalError timeout : M) : Ending M K → Option M
  | .completed | .canceled => none
  | .timedOut _ => some timeout
  | .rendered response => some response
  | .panicked _ | .failed _ | .renderFailed _ => some internalError

/-- What rendering came to: no response counts as a failure. -/
def ofRendering : Except RenderingFailure (Option M) → Ending M K
  | .ok (some response) => .rendered response
  | .ok none => .renderFailed .empty
  | .error error => .renderFailed error

end Ending
end Exchange
