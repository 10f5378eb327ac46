import Exchange.Diagnostic.Basic

/-!
Where diagnostics go: to code of the client, to a record, or to a set of sinks one after the other. Sinks
have names, by which they are reported when they panic.
-/

namespace Exchange
set_option autoImplicit false

/-- A receiver of diagnostics, `K` being the client's code. -/
inductive Sink (K : Type) where
  | client (name : String) (code : K)
  | recorder
  | set (members : List (Sink K))

namespace Sink
variable {K : Type}

def name : Sink K → String
  | .client name _ => name
  | .recorder => "TracingSink"
  | .set _ => "DiagnosticSet"

end Sink
end Exchange
