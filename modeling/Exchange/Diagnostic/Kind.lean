/-!
The kinds of diagnostics: their labels, the severity with which they are recorded and the text of the record.
-/

namespace Exchange
set_option autoImplicit false

/-- How serious a record is. -/
inductive Severity where
  | debug | info | warn | error
deriving DecidableEq

def Severity.label : Severity → String
  | .debug => "DEBUG"
  | .info => "INFO"
  | .warn => "WARN"
  | .error => "ERROR"

/-- What a diagnostic reports. -/
inductive Kind where
  | lateEvent
  | lateInterestEnd
  | lateRegistration
  | reentrantCall
  | pokeUnsupported
  | renderableFailure
  | renderFailed
  | producerFailed
  | producerPanicked
  | producerTimedOut
  | producerCanceled
  | observerPanicked
  | sinkPanicked
deriving DecidableEq

namespace Kind

def all : List Kind :=
  [.lateEvent, .lateInterestEnd, .lateRegistration, .reentrantCall, .pokeUnsupported, .renderableFailure,
    .renderFailed, .producerFailed, .producerPanicked, .producerTimedOut, .producerCanceled,
    .observerPanicked, .sinkPanicked]

def label : Kind → String
  | .lateEvent => "late_event"
  | .lateInterestEnd => "late_interest_end"
  | .lateRegistration => "late_registration"
  | .reentrantCall => "reentrant_call"
  | .pokeUnsupported => "poke_unsupported"
  | .renderableFailure => "renderable_failure"
  | .renderFailed => "render_failed"
  | .producerFailed => "producer_failed"
  | .producerPanicked => "producer_panicked"
  | .producerTimedOut => "producer_timed_out"
  | .producerCanceled => "producer_canceled"
  | .observerPanicked => "observer_panicked"
  | .sinkPanicked => "sink_panicked"

/-- Mishaps are errors, late and misplaced calls warnings; what a client may well intend is less. -/
def severity : Kind → Severity
  | .lateEvent | .lateInterestEnd | .lateRegistration | .reentrantCall => .warn
  | .renderableFailure => .info
  | .renderFailed | .producerFailed | .producerPanicked | .producerTimedOut
  | .observerPanicked | .sinkPanicked => .error
  | .producerCanceled | .pokeUnsupported => .debug

def message : Kind → String
  | .lateEvent => "event added after point has already ended"
  | .lateInterestEnd => "interest-end callback added after point has already ended"
  | .lateRegistration => "observer registered after point has already ended"
  | .reentrantCall => "registration attempted from inside a dispatch"
  | .pokeUnsupported => "poke ignored, responder has no liveness handler"
  | .renderableFailure => "producer raised a renderable failure, responding accordingly"
  | .renderFailed => "rendering the renderable failure failed"
  | .producerFailed => "producer failed"
  | .producerPanicked => "producer panicked"
  | .producerTimedOut => "producer exceeded its deadline"
  | .producerCanceled => "producer cancelled"
  | .observerPanicked => "observer panicked during dispatch, removed"
  | .sinkPanicked => "diagnostic sink panicked"

end Kind
end Exchange
