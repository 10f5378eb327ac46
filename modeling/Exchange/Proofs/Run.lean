import Exchange.Machine.Schedule

/-!
Runs of an exchange: steps of its threads in any order, and between them new calls of the client,
turns of tasks that are ready, the clock. A run leaves a trail, the moments at which a thread took a
step; what is said of runs is read off their trails.
-/

namespace Exchange
set_option autoImplicit false

variable {M E K H : Type}

/-- A step about to be taken: the state of the exchange, and the thread that takes it. -/
structure Moment (M E K H : Type) where
  world : World M E K H
  thread : Thread M E K H

namespace World

def initial (host : H) : World M E K H :=
  { host, threads := [⟨mainThread, .resume .done, []⟩], nextThread := mainThread + 1 }

def thread? (w : World M E K H) (t : Nat) : Option (Thread M E K H) := w.threads.find? (·.id = t)

/-- Nothing is left to do on the main thread. -/
def isIdle (w : World M E K H) : Bool := (w.thread? mainThread).all Thread.isOver

end World

/-- What can happen between two steps. -/
inductive Between (client : Client M E K H) (w : World M E K H) : World M E K H → Prop
  /-- The client makes calls on the main thread. -/
  | code (code : Code M E K H Unit) : w.isIdle →
      Between client w (w.assign (.eval (code.bind fun _ => .ret .done)) [])
  /-- A task that is ready has its turn. -/
  | turn {t : Nat} {ready : List Nat} : w.isIdle → w.ready = t :: ready →
      Between client w (({ w with ready }.beginTurn client [] t).world.assign
        ({ w with ready }.beginTurn client [] t).control
        ({ w with ready }.beginTurn client [] t).stack)
  | clock (time : Nat) : Between client w (w.advance time)
  | host (change : H → H) : Between client w { w with host := change w.host }
  /-- Threads that are over are let go. -/
  | reap : Between client w
      { w with
        threads := w.threads.filter fun thread => thread.id = World.mainThread || !thread.isOver }

/-- From one state to another with that trail. -/
inductive Run (client : Client M E K H) (start : World M E K H) :
    List (Moment M E K H) → World M E K H → Prop
  | refl : Run client start [] start
  | step {trail : List (Moment M E K H)} {w w' : World M E K H} {t : Nat}
      {thread : Thread M E K H} :
      Run client start trail w → w.thread? t = some thread → w.step client t = some w' →
      Run client start (trail ++ [⟨w, thread⟩]) w'
  | between {trail : List (Moment M E K H)} {w w' : World M E K H} :
      Run client start trail w → Between client w w' → Run client start trail w'

/-- A client's sink panics, and no set of sinks keeps the panic from the one who reports. -/
def Thread.sinkPanics : Thread M E K H → Bool
  | ⟨_, .unwind _, .receiving :: .fanOut _ _ _ _ :: _⟩ => false
  | ⟨_, .unwind _, .receiving :: _⟩ => true
  | _ => false

def SinksReturn (trail : List (Moment M E K H)) : Prop := ∀ m ∈ trail, m.thread.sinkPanics = false

instance (trail : List (Moment M E K H)) : Decidable (SinksReturn trail) := List.decidableBAll _ _

@[simp] theorem sinksReturn_append {first second : List (Moment M E K H)} :
    SinksReturn (first ++ second) ↔ SinksReturn first ∧ SinksReturn second := by
  simp [SinksReturn, or_imp, forall_and]

namespace Run
variable {client : Client M E K H} {u v w : World M E K H} {first second : List (Moment M E K H)}

theorem trans (huv : Run client u first v) (hvw : Run client v second w) :
    Run client u (first ++ second) w := by
  induction hvw with
  | refl => simpa using huv
  | step _ ht hs ih => simpa using ih.step ht hs
  | between _ hb ih => exact ih.between hb

/-- A run up to one of its moments, and from the step taken there. -/
theorem split {trail : List (Moment M E K H)} {moment : Moment M E K H} (run : Run client u trail w)
    (heq : trail = first ++ moment :: second) :
    Run client u first moment.world ∧ ∃ t v, moment.world.thread? t = some moment.thread ∧
      moment.world.step client t = some v ∧ Run client v second w := by
  induction run generalizing second with
  | refl => simp at heq
  | @step trail w w' t thread before ht hs ih =>
    rcases List.eq_nil_or_concat second with rfl | ⟨second, last, rfl⟩
    · obtain ⟨rfl, hlast⟩ := List.append_inj' heq rfl
      cases hlast
      exact ⟨before, t, w', ht, hs, .refl⟩
    · rw [List.concat_eq_append, ← List.cons_append, ← List.append_assoc] at heq
      obtain ⟨htrail, hlast⟩ := List.append_inj' heq rfl
      cases hlast
      obtain ⟨hfirst, n, v, hn, hv, hsecond⟩ := ih htrail
      rw [List.concat_eq_append]
      exact ⟨hfirst, n, v, hn, hv, hsecond.step ht hs⟩
  | between _ hb ih =>
    obtain ⟨hfirst, n, v, hn, hv, hsecond⟩ := ih heq
    exact ⟨hfirst, n, v, hn, hv, hsecond.between hb⟩

end Run

def Code.calls : List (Op M E K) → Code M E K H Unit
  | [] => .ret ()
  | op :: ops => .call op fun _ => calls ops

namespace World

/-- The states through which the first threads able to take a step lead, and the last one. -/
def trace (client : Client M E K H) : Nat → World M E K H → List (Moment M E K H) × World M E K H
  | 0, w => ([], w)
  | fuel + 1, w =>
    match w.threads.findSome? fun thread =>
      if w.mustWait thread then none
      else (w.thread? thread.id).bind fun found => (w.step client thread.id).map (found, ·) with
    | some (thread, next) => (⟨w, thread⟩ :: (trace client fuel next).1, (trace client fuel next).2)
    | none => ([], w)

/-- What goes on with every step that is taken from a state that lets it holds along a trace. -/
theorem trace_induction {client : Client M E K H} (goes : List (Moment M E K H) → World M E K H → Prop)
    (lets : World M E K H → Prop)
    (hstep : ∀ {during w w' t thread}, goes during w → lets w → w.thread? t = some thread →
      w.step client t = some w' → goes (during ++ [⟨w, thread⟩]) w')
    (fuel : Nat) {during : List (Moment M E K H)} {w : World M E K H} (hw : goes during w)
    (hlets : ∀ m ∈ (w.trace client fuel).1, lets m.world) :
    goes (during ++ (w.trace client fuel).1) (w.trace client fuel).2 := by
  induction fuel generalizing during w with
  | zero => simpa [trace] using hw
  | succ fuel ih =>
    unfold trace at hlets ⊢
    split
    · rename_i thread next h
      rw [h] at hlets
      obtain ⟨other, -, h⟩ := List.exists_of_findSome?_eq_some h
      split at h
      · cases h
      obtain ⟨found, hfound, h⟩ := Option.bind_eq_some_iff.mp h
      obtain ⟨next, hnext, h⟩ := Option.map_eq_some_iff.mp h
      cases h
      have hgoes := hstep hw (hlets _ List.mem_cons_self) hfound hnext
      simpa using ih hgoes fun m hm => hlets m (List.mem_cons_of_mem _ hm)
    · simpa using hw

theorem run_trace (client : Client M E K H) (fuel : Nat) (w : World M E K H) :
    Run client w (w.trace client fuel).1 (w.trace client fuel).2 :=
  trace_induction (Run client w) (fun _ => True) (fun run _ => run.step) fuel .refl fun _ _ => trivial

/-- The run in which the client makes those calls one after the other. -/
def runCalls (client : Client M E K H) (host : H) (ops : List (Op M E K)) (fuel : Nat) :
    List (Moment M E K H) × World M E K H :=
  trace client fuel ((initial host).assign (.eval ((Code.calls ops).bind fun _ => .ret .done)) [])

theorem run_runCalls (client : Client M E K H) (host : H) (ops : List (Op M E K)) (fuel : Nat) :
    Run client (initial host) (runCalls client host ops fuel).1 (runCalls client host ops fuel).2 :=
  (Run.refl.between (.code _ rfl)).trans (run_trace client fuel _)

/-- The turn of the first task that is ready. -/
def turnTrace (client : Client M E K H) (fuel : Nat) (w : World M E K H) :
    List (Moment M E K H) × World M E K H :=
  match w.ready with
  | [] => ([], w)
  | t :: ready =>
    let move := { w with ready }.beginTurn client [] t
    trace client fuel (move.world.assign move.control move.stack)

theorem run_turnTrace (client : Client M E K H) (fuel : Nat) {w : World M E K H} (h : w.isIdle) :
    Run client w (w.turnTrace client fuel).1 (w.turnTrace client fuel).2 := by
  unfold turnTrace
  split
  · exact .refl
  · rename_i hready
    exact (Run.refl.between (.turn h hready)).trans (run_trace client fuel _)

end World

/-- How an observer behaves once it has noted its event. -/
inductive Manner where
  | stays | declines
  /-- Makes calls from inside the pass, unless the event is final, and stays. -/
  | calls
deriving DecidableEq

/-- What callbacks have noted: an observer its event, a notice that it is given. -/
abbrev Notes := List (Manner × Option (Event Unit Unit))

/-- A client whose callbacks note what they are given. -/
def notingClient (calls : List (Op Unit Unit Manner)) : Client Unit Unit Manner Notes where
  observer manner event := .host (· ++ [(manner, some event)]) fun _ =>
    match manner with
    | .stays => .ret true
    | .declines => .ret false
    | .calls => (Code.calls (if event.isLast then [] else calls)).bind fun _ => .ret true
  routine manner := .host (· ++ [(manner, none)]) fun _ => .ret ()
  sink _ _ := .ret ()
  start manner _ := .ret manner
  poll _ _ := .ret (.done (.ok ()))
  render _ := .ret (.ok none)
  internalError := ()
  timeout := ()
  record _ notes := notes
  bound _ _ notes := notes

/-- Such a client, whose observers push a final event if they make calls at all. -/
def finishingClient : Client Unit Unit Manner Notes := notingClient [.push 0 (.ofResponse () true)]

/-- A client whose observers stay or not as their code says, and whose other code does nothing. -/
def plainClient : Client Unit Unit Bool Unit where
  observer stays _ := .ret stays
  routine _ := .ret ()
  sink _ _ := .ret ()
  start code _ := .ret code
  poll _ _ := .ret (.done (.ok ()))
  render _ := .ret (.ok none)
  internalError := ()
  timeout := ()
  record _ host := host
  bound _ _ host := host

end Exchange
