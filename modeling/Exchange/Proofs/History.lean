import Exchange.Proofs.Run

/-!
What happens on one point, read off the moments of a run: calls on the point and how they fare, the
beginnings of passes, the end, and every time that an observer's or a notice's code is run.
-/

namespace Exchange
set_option autoImplicit false

variable {M E K H : Type}

/-- How a call on a point fares. -/
inductive Reception where
  /-- It takes effect on the open point. -/
  | taken
  /-- It comes from inside the pass and is put off. -/
  | putOff
  /-- The notice is given at once, because nobody holds the point open. -/
  | atOnce
  | late
deriving DecidableEq

/-- On what occasion a callback is run. -/
inductive Occasion where
  | pass
  /-- The deliveries after the end. -/
  | farewell
  /-- The call that handed the callback over. -/
  | call
deriving DecidableEq

inductive Happening (M E K : Type) where
  | registered (id : Nat) (interest : Interest) (code : K)
  | unregistered (id : Nat)
  | awaited (ticket : Nat) (notice : Notice K) (reception : Reception)
  | pushed (event : Event M E) (reception : Reception)
  /-- A pass begins, with the entries that are on the list. -/
  | begun (event : Event M E) (entries : List (Entry K))
  /-- The point ends; these entries are still to be told, by that event. -/
  | ended (event : Event M E) (entries : List (Entry K))
  /-- An observer is given an event; one that comes too late to join has no number of its own. -/
  | presented (id : Nat) (code : K) (event : Event M E) (occasion : Occasion)
  | notified (ticket : Nat) (notice : Notice K) (occasion : Occasion)
  | left (entry : Entry K) (stays : Bool)
  /-- An event that was put off has come too late. -/
  | dropped (event : Event M E)
  /-- A diagnostic labelled with the point is created. -/
  | reported (kind : Kind) (reason : Option String)
  /-- The client itself asks for such a diagnostic. -/
  | emitted (kind : Kind) (reason : Option String)
deriving DecidableEq

namespace World

/-- The phase of a point; one that is yet to be created is open and empty. -/
def phase (w : World M E K H) (p : Nat) : Phase M E K :=
  (w.points[p]?.map (·.phase)).getD (.listening [])

def nextId (w : World M E K H) (p : Nat) : Nat := (w.points[p]?.map (·.nextId)).getD 1

def nextTicket (w : World M E K H) (p : Nat) : Nat := (w.points[p]?.map (·.nextTicket)).getD 0

end World

namespace Phase

def receptionOfNotice : Phase M E K → Reception
  | .listening entries => if heldOpen entries then .taken else .atOnce
  | .dispatching _ _ => .putOff
  | .ended _ => .late

def occasion : Phase M E K → Occasion
  | .dispatching _ _ => .pass
  | _ => .farewell

/-- What the call that serves the point does between two turns. -/
def progress : Phase M E K → List (Happening M E K)
  | .dispatching thread pass =>
    if pass.waiting = [] then
      match pass.commit thread with
      | .listening _ => []
      | .dispatching _ next => [.begun next.event next.waiting]
      | .ended farewell => [.ended farewell.event farewell.waiting]
    else []
  | .ended ⟨_, [], event :: _⟩ => [.dropped event]
  | _ => []

end Phase

def Point.receives (point : Point M E K) : Op M E K → List (Happening M E K)
  | .register _ interest code =>
    match point.phase with
    | .listening _ => [.registered point.nextId interest code]
    | _ => []
  | .unregister handle =>
    match point.phase, point.phase.remove handle.id with
    | .listening _, .ended farewell =>
      [.unregistered handle.id, .ended farewell.event farewell.waiting]
    | _, _ => [.unregistered handle.id]
  | .atEnd _ notice => [.awaited point.nextTicket notice point.phase.receptionOfNotice]
  | .push _ event =>
    match point.phase with
    | .listening entries => [.pushed event .taken, .begun event entries]
    | .dispatching _ _ => [.pushed event .putOff]
    | .ended _ => [.pushed event .late]
  | _ => []

/-- What a call is for a point: a handle whose point is gone does nothing. -/
def World.receives (w : World M E K H) (p : Nat) (op : Op M E K) : List (Happening M E K) :=
  match op with
  | .emit q kind label reason =>
    if w.points[q]?.isSome ∧ label = some (Point.label p) then [.emitted kind reason] else []
  | .report _ kind label reason =>
    if label = some (Point.label p) then [.emitted kind reason] else []
  | .unregister handle =>
    match w.points[p]? with
    | some point => if handle.point = some p ∧ w.isAlive p then point.receives op else []
    | none => []
  | _ =>
    match w.points[p]? with
    | some point => if op.waitsFor? = some p then point.receives op else []
    | none => []

/-- What is done for a point, `top` being the frame for which it is done. -/
def World.does (w : World M E K H) (p : Nat) (top : Option (Frame M E K H)) :
    Act M E K → List (Happening M E K)
  | .report _ kind label reason =>
    if label = some (Point.label p) then [.reported kind reason] else []
  | .present code event =>
    match top with
    | some (.delivering q) =>
      match (w.phase p).turn? with
      | some (.observer id _ _) =>
        if q = p then [.presented id code event (w.phase p).occasion] else []
      | _ => []
    | some (.acts q _ _) => if q = p then [.presented 0 code event .call] else []
    | _ => []
  | .notify ticket notice =>
    match top with
    | some (.delivering q) => if q = p then [.notified ticket notice (w.phase p).occasion] else []
    | some (.acts q _ _) => if q = p then [.notified ticket notice .call] else []
    | _ => []
  | _ => []

/-- A frame for the point has its turn again. -/
def World.returns (w : World M E K H) (p : Nat) (stays : Entry K → Bool) :
    Frame M E K H → List (Happening M E K)
  | .serving q => if q = p then (w.phase p).progress else []
  | .delivering q =>
    if q = p then (w.phase p).turn?.toList.map fun entry => .left entry (stays entry) else []
  | _ => []

def Moment.happenings (p : Nat) (m : Moment M E K H) : List (Happening M E K) :=
  match m.thread.control, m.thread.stack with
  | .perform op, _ => m.world.receives p op
  | .act act, stack => m.world.does p stack.head? act
  | .resume reply, frame :: _ => m.world.returns p (Entry.stays reply) frame
  | .unwind _, .delivering q :: _ => m.world.returns p (fun _ => false) (.delivering q)
  | _, _ => []

def history (p : Nat) (trail : List (Moment M E K H)) : List (Happening M E K) :=
  trail.flatMap (Moment.happenings p)

namespace Happening

/-- Something is done: a callback is run, or a diagnostic created. -/
def isDeed : Happening M E K → Bool
  | .presented _ _ _ _ | .notified _ _ _ | .reported _ _ => true
  | _ => false

end Happening

section
variable {w : World M E K H} {p : Nat} {happening : Happening M E K}

theorem Point.receives_no_deed {point : Point M E K} (op : Op M E K) :
    ∀ happening ∈ point.receives op, happening.isDeed = false := by
  cases op <;> simp only [Point.receives] <;> repeat' split
  all_goals simp [Happening.isDeed]

theorem World.receives_no_deed (op : Op M E K) :
    ∀ happening ∈ w.receives p op, happening.isDeed = false := by
  cases op <;> simp only [receives] <;> repeat' split
  all_goals first | exact Point.receives_no_deed _ | simp [Happening.isDeed]

theorem Phase.progress_no_deed {phase : Phase M E K} :
    ∀ happening ∈ phase.progress, happening.isDeed = false := by
  unfold progress
  repeat' split
  all_goals simp [Happening.isDeed]

theorem World.returns_no_deed {stays : Entry K → Bool} (frame : Frame M E K H) :
    ∀ happening ∈ w.returns p stays frame, happening.isDeed = false := by
  cases frame with
  | serving q =>
    simp only [returns]
    split
    · exact Phase.progress_no_deed
    · simp
  | delivering q =>
    simp only [returns]
    split <;> simp [Happening.isDeed]
  | _ => simp [returns]

/-- What is done is done by an act, not by a call that is received or a frame that has its turn. -/
theorem Moment.act_of_deed {moment : Moment M E K H} (h : happening ∈ moment.happenings p)
    (hd : happening.isDeed) : ∃ due, moment.thread.control = .act due ∧
      happening ∈ moment.world.does p moment.thread.stack.head? due := by
  have none (h : happening.isDeed = false) : False := by
    rw [hd] at h
    cases h
  obtain ⟨world, n, control, stack⟩ := moment
  cases control with
  | act due => exact ⟨due, rfl, h⟩
  | perform op => exact (none (World.receives_no_deed op happening h)).elim
  | resume reply =>
    cases stack with
    | nil => cases h
    | cons frame stack => exact (none (World.returns_no_deed frame happening h)).elim
  | unwind payload =>
    cases stack with
    | nil => cases h
    | cons frame stack =>
      cases frame with
      | delivering q => exact (none (World.returns_no_deed (.delivering q) happening h)).elim
      | _ => cases h
  | _ => cases h

end
end Exchange
