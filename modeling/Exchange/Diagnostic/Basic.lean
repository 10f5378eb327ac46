import Exchange.Diagnostic.Kind

/-!
A diagnostic: a kind, whom it concerns, why, and its number in the order of creation. A record is what a
recording sink writes of it.
-/

namespace Exchange
set_option autoImplicit false

/-- One report. -/
structure Diagnostic where
  kind : Kind
  label : Option String
  reason : Option String
  seq : Nat
deriving DecidableEq

namespace Diagnostic

def labelled (d : Diagnostic) (label : String) : Diagnostic := { d with label := some label }

def because (d : Diagnostic) (reason : String) : Diagnostic := { d with reason := some reason }

end Diagnostic

/-- A written diagnostic, with the producer on whose behalf it was written, if any. -/
structure Record where
  severity : Severity
  message : String
  kind : String
  label : String
  reason : String
  seq : Nat
  producer : Option String
deriving DecidableEq

/-- A missing label is written as a dash, a missing reason as nothing. -/
def Diagnostic.record (d : Diagnostic) (producer : Option String) : Record where
  severity := d.kind.severity
  message := d.kind.message
  kind := d.kind.label
  label := d.label.getD "-"
  reason := d.reason.getD ""
  seq := d.seq
  producer := producer

end Exchange
