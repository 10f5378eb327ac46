import Exchange.Machine.Step

/-!
Running an exchange. Of the threads that can take a step the first on the list does; a thread that waits
for a pass goes on only when the call that opened the pass is over, deliveries after the end included. Tasks
have their turns one after the other in the order in which they became ready; the clock moves only when none
is ready, from one timer to the next.
-/

namespace Exchange
set_option autoImplicit false

variable {M E K H : Type}

namespace World

def servedElsewhere (w : World M E K H) (thread p : Nat) : Bool :=
  w.threads.any fun other => other.id ≠ thread && other.stack.any (Frame.serves p)

/-- Whether the thread's call has to wait until another thread's call on the same point is over. -/
def mustWait (w : World M E K H) (thread : Thread M E K H) : Bool :=
  match thread.control with
  | .perform op => op.waitsFor?.any (w.servedElsewhere thread.id)
  | _ => false

def next? (client : Client M E K H) (w : World M E K H) : Option (World M E K H) :=
  w.threads.findSome? fun thread => if w.mustWait thread then none else w.step client thread.id

/-- Runs until no thread can take a step, or the fuel is spent. -/
def run (client : Client M E K H) : Nat → World M E K H → World M E K H
  | 0, w => w
  | fuel + 1, w =>
    match w.next? client with
    | some w => run client fuel w
    | none => w

/-- The thread on which the client's own calls and the turns of tasks run. -/
def mainThread : Nat := 0

def assign (control : Control M E K H) (stack : List (Frame M E K H)) (w : World M E K H) :
    World M E K H :=
  { w with threads := w.threads.map fun thread =>
      if thread.id = mainThread then { thread with control, stack } else thread }

/-- Runs code on the main thread until nothing moves. -/
def execute (client : Client M E K H) (fuel : Nat) (code : Code M E K H Unit) (w : World M E K H) :
    World M E K H :=
  (w.assign (.eval (code.bind fun _ => .ret .done)) []).run client fuel

def turn (client : Client M E K H) (fuel : Nat) (w : World M E K H) : World M E K H :=
  match w.ready with
  | [] => w
  | t :: ready =>
    let move := { w with ready }.beginTurn client [] t
    (move.world.assign move.control move.stack).run client fuel

def settle (client : Client M E K H) (fuel : Nat) : Nat → World M E K H → World M E K H
  | 0, w => w
  | turns + 1, w => if w.ready.isEmpty then w else settle client fuel turns (w.turn client fuel)

def timers (w : World M E K H) : List Nat := w.tasks.flatMap Task.timers

/-- Moves the clock and wakes the tasks that are due. -/
def advance (time : Nat) (w : World M E K H) : World M E K H :=
  let now := max w.clock time
  let due := (List.range w.tasks.length).filter fun t =>
    w.tasks[t]?.any fun task => task.timers.any (· ≤ now)
  due.foldl (fun w t => w.wake t) { w with clock := now }

/-- Runs all that is ready, then moves the clock from timer to timer up to the limit, running all that
becomes ready each time; stops early once `stop` holds. -/
def runUntil (client : Client M E K H) (fuel limit : Nat) (stop : World M E K H → Bool) :
    Nat → World M E K H → World M E K H
  | 0, w => w
  | rounds + 1, w =>
    let w := w.settle client fuel fuel
    if stop w then w
    else match (w.timers.filter (· ≤ limit)).min? with
      | some time => runUntil client fuel limit stop rounds (w.advance time)
      | none => w.advance limit

end World
end Exchange
