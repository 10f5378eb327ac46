import Exchange.Diagnostic.Sink
import Exchange.Event
import Exchange.Text.Quoted

/-!
A point: one request, the list of its observers and of the notices of its end, and its phase. While an event
is delivered, the entries are in the hands of a pass, which belongs to the thread of the call that opened it.
-/

namespace Exchange
open Text
set_option autoImplicit false

/-- Whether an observer keeps its point open. -/
inductive Interest where
  | active | passive
deriving DecidableEq

namespace Interest

/-- Observers keep their point open unless they say otherwise. -/
instance : Inhabited Interest := ⟨.active⟩

def shown : Interest → Shown
  | .active => .atom "Active"
  | .passive => .atom "Passive"

end Interest

/-- What is done once interest in a point ends: a task is cancelled, or code of the client is run. -/
inductive Notice (K : Type) where
  | cancel (task : Nat)
  | run (code : K)
deriving DecidableEq

/-- One entry of a point's list. Observers are numbered from one; notices bear tickets of their own. -/
inductive Entry (K : Type) where
  | observer (id : Nat) (interest : Interest) (code : K)
  | ending (ticket : Nat) (notice : Notice K)
deriving DecidableEq

namespace Entry
variable {K : Type}

def id? : Entry K → Option Nat
  | .observer id _ _ => some id
  | .ending _ _ => none

def isEnding : Entry K → Bool
  | .observer _ _ _ => false
  | .ending _ _ => true

def holdsOpen : Entry K → Bool
  | .observer _ .active _ => true
  | _ => false

/-- Whether an event makes the entry run: a notice waits for a final one. -/
def heeds {M E : Type} (e : Event M E) : Entry K → Bool
  | .observer _ _ _ => true
  | .ending _ _ => e.isLast

end Entry

/-- Whether anyone on the list keeps the point open. -/
def heldOpen {K : Type} (entries : List (Entry K)) : Bool := entries.any Entry.holdsOpen

def without {K : Type} (id : Nat) (entries : List (Entry K)) : List (Entry K) :=
  entries.filter fun entry => entry.id? ≠ some id

/-- A call made from inside a pass, applied when the pass is over. -/
inductive Postponed (M E K : Type) where
  | unregister (id : Nat)
  | push (event : Event M E)
  | ending (ticket : Nat) (notice : Notice K)

/-- The delivery of one event: whose turn is still to come, who stays, and what was put off. The first of
`waiting` is the one whose turn it is; `queue` holds the events of the next passes of the same call. -/
structure Pass (M E K : Type) where
  event : Event M E
  waiting : List (Entry K)
  kept : List (Entry K) := []
  postponed : List (Postponed M E K) := []
  queue : List (Event M E) := []

/-- What remains to be done once a point has ended: to whom the final event is still to be delivered, and
which events came too late. -/
structure Farewell (M E K : Type) where
  event : Event M E
  waiting : List (Entry K)
  late : List (Event M E)

inductive Phase (M E K : Type) where
  | listening (entries : List (Entry K))
  | dispatching (thread : Nat) (pass : Pass M E K)
  | ended (farewell : Farewell M E K)

namespace Phase
variable {M E K : Type}

def label : Phase M E K → String
  | .listening _ => "open"
  | .dispatching _ _ => "dispatching"
  | .ended _ => "ended"

/-- The number of entries, unknown unless the point is open. -/
def observers? : Phase M E K → Option Nat
  | .listening entries => some entries.length
  | _ => none

def isListening : Phase M E K → Bool
  | .listening _ => true
  | _ => false

def isEnded : Phase M E K → Bool
  | .ended _ => true
  | _ => false

/-- Whether the point may still have someone to deliver to: during a pass it cannot end. -/
def hasInterest : Phase M E K → Bool
  | .listening entries => heldOpen entries
  | .dispatching _ _ => true
  | .ended _ => false

end Phase

/-- A point. `retained` says whether the client still holds it. -/
structure Point (M E K : Type) where
  request : String
  sink : Sink K
  phase : Phase M E K := .listening []
  nextId : Nat := 1
  nextTicket : Nat := 0
  pokeHandler : Option K := none
  retained : Bool := true

/-- Points are labelled by their number in the order of creation. -/
def Point.label (number : Nat) : String := "rendezvous#" ++ toString number

/-- The handle by which a client takes back a registration; inert if it never joined the list. -/
structure Handle where
  point : Option Nat
  id : Nat
deriving DecidableEq

namespace Handle

def inert : Handle := ⟨none, 0⟩

def isInert (h : Handle) : Bool := h.point.isNone

def shown (h : Handle) : Shown :=
  .record "Registration" [("id", .ofNat h.id), ("inert", .ofBool h.isInert)]

end Handle

/-- What a client can see of a point. -/
structure View (K : Type) where
  number : Nat
  request : String
  sink : Sink K
  phase : String
  observers? : Option Nat
  isEnded : Bool
  hasInterest : Bool

def Point.view {M E K : Type} (number : Nat) (point : Point M E K) : View K where
  number := number
  request := point.request
  sink := point.sink
  phase := point.phase.label
  observers? := point.phase.observers?
  isEnded := point.phase.isEnded
  hasInterest := point.phase.hasInterest

def View.shown {K : Type} (view : View K) : Shown :=
  .record "Rendezvous" [("id", .ofNat view.number), ("request", .ofString view.request),
    ("state", .ofString view.phase), ("observers", .ofOption (view.observers?.map .ofNat))]

end Exchange
