import Exchange.Point.Basic

/-!
The transitions of a phase. A call of another thread waits while a pass is open, a call from inside the
pass is put off. A pass delivers its event to one entry after the other; then it is committed: removals,
notices and pushes that were put off are applied, and the point is open again, goes on with the next event,
or has ended.
-/

namespace Exchange
set_option autoImplicit false

/-- How a call finds a point. -/
inductive Access where
  /-- No pass is open. -/
  | free
  /-- The call comes from inside the open pass. -/
  | inside
  /-- The open pass belongs to another thread. -/
  | busy
deriving DecidableEq

variable {M E K : Type}

namespace Pass

/-- Applies one call that was put off to the entries that stay and the events that follow. -/
def applyPostponed (state : List (Entry K) × List (Event M E)) :
    Postponed M E K → List (Entry K) × List (Event M E)
  | .unregister id => (without id state.1, state.2)
  | .push event => (state.1, state.2 ++ [event])
  | .ending ticket notice => (state.1 ++ [.ending ticket notice], state.2)

/-- Who stays after the pass, and which events follow. -/
def settled (pass : Pass M E K) : List (Entry K) × List (Event M E) :=
  pass.postponed.foldl applyPostponed (pass.kept, pass.queue)

def advance (keep : Bool) (pass : Pass M E K) : Pass M E K :=
  match pass.waiting with
  | [] => pass
  | entry :: rest => { pass with waiting := rest, kept := if keep then pass.kept ++ [entry] else pass.kept }

/-- The phase after the pass. A final event ends the point, and of those who stay only the notices put off
have not seen it; so does the loss of interest, of which all who stay are told by the tombstone. -/
def commit (thread : Nat) (pass : Pass M E K) : Phase M E K :=
  let (survivors, queue) := pass.settled
  if pass.event.isLast then .ended ⟨pass.event, survivors.filter Entry.isEnding, queue⟩
  else if !heldOpen survivors then .ended ⟨.tombstone, survivors, queue⟩
  else match queue with
    | [] => .listening survivors
    | event :: later => .dispatching thread { event, waiting := survivors, queue := later }

end Pass

namespace Phase

def access (thread : Nat) : Phase M E K → Access
  | .dispatching owner _ => if owner = thread then .inside else .busy
  | _ => .free

/-- The entry whose turn it is or comes next, while an event is being delivered. -/
def turn? : Phase M E K → Option (Entry K)
  | .listening _ => none
  | .dispatching _ pass => pass.waiting.head?
  | .ended farewell => farewell.waiting.head?

/-- A call from inside the pass is put off. -/
def postpone (call : Postponed M E K) : Phase M E K → Phase M E K
  | .dispatching thread pass => .dispatching thread { pass with postponed := pass.postponed ++ [call] }
  | phase => phase

/-- The first entry has had its turn; after the end none is kept. -/
def advance (keep : Bool) : Phase M E K → Phase M E K
  | .dispatching thread pass => .dispatching thread (pass.advance keep)
  | .ended farewell => .ended { farewell with waiting := farewell.waiting.tail }
  | phase => phase

def join (entry : Entry K) : Phase M E K → Phase M E K
  | .listening entries => .listening (entries ++ [entry])
  | phase => phase

/-- A push on an open point opens a pass. -/
def openPass (thread : Nat) (event : Event M E) : Phase M E K → Phase M E K
  | .listening entries => .dispatching thread { event, waiting := entries }
  | phase => phase

/-- A registration is taken back on an open point, which ends if no interest is left. -/
def remove (id : Nat) : Phase M E K → Phase M E K
  | .listening entries =>
    let rest := without id entries
    if heldOpen rest then .listening rest else .ended ⟨.tombstone, rest, []⟩
  | phase => phase

/-- One event that came too late has been reported. -/
def dropLate : Phase M E K → Phase M E K
  | .ended farewell => .ended { farewell with late := farewell.late.tail }
  | phase => phase

end Phase
end Exchange
