import Exchange.Text.Layout

/-!
What travels from responders to observers: a response, which may be final, an error, which always is, or
the tombstone, a final event that carries neither.
-/

namespace Exchange
open Text
set_option autoImplicit false

/-- One event with messages in `M` and errors in `E`. -/
structure Event (M E : Type) where
  response : Option M
  error : Option E
  isLast : Bool
deriving DecidableEq

namespace Event
variable {M E : Type}

def ofResponse (response : M) (isLast : Bool) : Event M E := ⟨some response, none, isLast⟩

/-- An error is always final. -/
def ofError (error : E) : Event M E := ⟨none, some error, true⟩

/-- The final event of a point that lost interest. -/
def tombstone : Event M E := ⟨none, none, true⟩

def isError (e : Event M E) : Bool := e.error.isSome

def isTombstone (e : Event M E) : Bool := e.isLast && e.response.isNone && e.error.isNone

/-- How an event that comes too late is called in reports. -/
def lateName (e : Event M E) : String :=
  if e.isError then "error" else if e.isLast then "final response" else "response"

def shown (message : M → Shown) (error : E → Shown) (e : Event M E) : Shown :=
  .record "Event" [("response", .ofOption (e.response.map message)),
    ("error", .ofOption (e.error.map error)), ("is_last", .ofBool e.isLast)]

end Event
end Exchange
