import Exchange.Proofs.Quieting

/-!
Runs in which some callbacks are spared their panics: having done what they did up to the panic, they
decline instead, and no panic is reported. What such a run tells is to be compared with what the run with
the panics tells, the reports of these panics left out.
-/

namespace Exchange
set_option autoImplicit false

variable {M E K H V : Type} {client : Client M E K H} {u v w w' : World M E K H} {t n p : Nat}
  {thread : Thread M E K H}
variable {control : Control M E K H} {stack : List (Frame M E K H)}
variable {first first' second second' trail : List (Moment M E K H)} {moment : Moment M E K H}
variable {view : H → V} {spared : Nat → Nat → Bool}

/-! ## What a run tells -/

namespace Happening

/-- A callback is run. -/
def isInvocation : Happening M E K → Bool
  | .presented _ _ _ _ | .notified _ _ _ => true
  | _ => false

/-- A callback is run because an entry of the list has its turn. -/
def isTurn : Happening M E K → Bool
  | .presented _ _ _ occasion | .notified _ _ occasion => occasion ≠ .call
  | _ => false

end Happening

def invocations (p : Nat) (trail : List (Moment M E K H)) : List (Happening M E K) :=
  (history p trail).filter Happening.isInvocation

/-- How many turns there have been at a point. -/
def turnCount (p : Nat) (trail : List (Moment M E K H)) : Nat :=
  (history p trail).countP Happening.isTurn

/-- The frame waits for a call, or for what a call does on its way. -/
def Frame.isCaller : Frame M E K H → Bool
  | .caller _ | .acts _ _ _ => true
  | _ => false

def Control.result? : Control M E K H → Option (Except Payload (Reply M K))
  | .resume reply => some (.ok reply)
  | .unwind payload => some (.error payload)
  | _ => none

/-- A call comes back: on which thread, with what, and how it leaves the points. -/
def Moment.return? (m : Moment M E K H) :
    Option (Nat × Except Payload (Reply M K) × List (Point M E K)) :=
  if m.thread.stack.head?.any Frame.isCaller then
    m.thread.control.result?.map fun result => (m.thread.id, result, m.world.points)
  else none

def returns (trail : List (Moment M E K H)) :
    List (Nat × Except Payload (Reply M K) × List (Point M E K)) := trail.filterMap Moment.return?

/-- No pass is under way beneath what the thread is about to do. -/
def Moment.isOutermost (m : Moment M E K H) : Bool :=
  m.thread.stack.all fun
    | .serving _ => false
    | _ => true

/-- How calls come back that are not made from inside a pass. -/
def outermostReturns (trail : List (Moment M E K H)) :
    List (Nat × Except Payload (Reply M K) × List (Point M E K)) := returns (trail.filter Moment.isOutermost)

/-- For the point of a call. -/
def Frame.point? : Frame M E K H → Option Nat
  | .acts p _ _ | .serving p | .delivering p => some p
  | _ => none

/-- A callback is run, be it an observer or a notice. -/
def Act.runsCallback : Act M E K → Bool
  | .present _ _ | .notify _ _ => true
  | _ => false

/-- The callback that is run: on which thread, for which point, and with what. -/
def Moment.callback? (m : Moment M E K H) : Option (Nat × Option Nat × Act M E K) :=
  match m.thread.control with
  | .act due =>
    if due.runsCallback then some (m.thread.id, m.thread.stack.head?.bind Frame.point?, due) else none
  | _ => none

/-- All callbacks that are run, in the order in which they are. -/
def callbacks (trail : List (Moment M E K H)) : List (Nat × Option Nat × Act M E K) :=
  trail.filterMap Moment.callback?

/-- A diagnostic is created, for that sink. -/
def Moment.diagnosis? (m : Moment M E K H) : Option (Sink K × Diagnostic) :=
  match m.thread.control with
  | .act (.report sink kind label reason) => some (sink, ⟨kind, label, reason, m.world.nextSeq⟩)
  | _ => none

def diagnoses (trail : List (Moment M E K H)) : List (Sink K × Diagnostic) :=
  trail.filterMap Moment.diagnosis?

/-- A diagnostic but for its number. -/
def unnumbered (diagnosis : Sink K × Diagnostic) : Sink K × Kind × Option String × Option String :=
  (diagnosis.1, diagnosis.2.kind, diagnosis.2.label, diagnosis.2.reason)

/-- Both trails tell the same, except for the numbers of diagnostics. -/
structure Alike (second first : List (Moment M E K H)) : Prop where
  history : ∀ p, history p second = history p first
  callbacks : callbacks second = callbacks first
  returns : returns second = returns first
  outermost : outermostReturns second = outermostReturns first
  diagnoses : (diagnoses second).map unnumbered = (diagnoses first).map unnumbered

namespace Alike

theorem refl : Alike first first := ⟨fun _ => rfl, rfl, rfl, rfl, rfl⟩

theorem symm (h : Alike second first) : Alike first second :=
  ⟨fun p => (h.history p).symm, h.callbacks.symm, h.returns.symm, h.outermost.symm, h.diagnoses.symm⟩

theorem append (h : Alike second first) (h' : Alike second' first') :
    Alike (second ++ second') (first ++ first') := by
  constructor
  · intro p
    simp only [Exchange.history, List.flatMap_append]
    exact congrArg₂ (· ++ ·) (h.history p) (h'.history p)
  · simp only [Exchange.callbacks, List.filterMap_append]
    exact congrArg₂ (· ++ ·) h.callbacks h'.callbacks
  · simp only [Exchange.returns, List.filterMap_append]
    exact congrArg₂ (· ++ ·) h.returns h'.returns
  · simp only [Exchange.outermostReturns, Exchange.returns, List.filter_append, List.filterMap_append]
    exact congrArg₂ (· ++ ·) h.outermost h'.outermost
  · simp only [Exchange.diagnoses, List.filterMap_append, List.map_append]
    exact congrArg₂ (· ++ ·) h.diagnoses h'.diagnoses

theorem invocations (h : Alike second first) : invocations p second = invocations p first :=
  congrArg (List.filter Happening.isInvocation) (h.history p)

theorem turnCount (h : Alike second first) : turnCount p second = turnCount p first :=
  congrArg (List.countP Happening.isTurn) (h.history p)

/-- The middle of a report tells nothing. -/
theorem of_reporting (h : ∀ m ∈ trail, m.thread.isReporting) : Alike trail [] := by
  have silent : ∀ m ∈ trail,
      (∀ p, Moment.happenings p m = []) ∧ m.callback? = none ∧ m.return? = none ∧ m.diagnosis? = none := by
    rintro ⟨w, id, control, stack⟩ hm
    have hr := h _ hm
    cases control with
    | deliver => exact ⟨fun _ => rfl, rfl, ite_self _, rfl⟩
    | eval => exact ⟨fun _ => rfl, rfl, ite_self _, rfl⟩
    | resume => cases stack with
      | nil => cases hr
      | cons frame stack =>
        have hf : frame.reports := hr
        cases frame <;> first | exact ⟨fun _ => rfl, rfl, rfl, rfl⟩ | cases hf
    | _ => cases hr
  constructor
  · intro p
    exact List.flatMap_eq_nil_iff.mpr fun m hm => (silent m hm).1 p
  · exact List.filterMap_eq_nil_iff.mpr fun m hm => (silent m hm).2.1
  · exact List.filterMap_eq_nil_iff.mpr fun m hm => (silent m hm).2.2.1
  · exact List.filterMap_eq_nil_iff.mpr fun m hm => (silent m (List.mem_of_mem_filter hm)).2.2.1
  · rw [Exchange.diagnoses, List.filterMap_eq_nil_iff.mpr fun m hm => (silent m hm).2.2.2]
    rfl

end Alike

/-- A moment tells the same in the exchange that looks different. -/
theorem Alike.recast {r : Recast M E K H}
    (h : ∀ thread ∈ w.threads, ∀ p, (r.thread thread).holdsPoint p = thread.holdsPoint p) :
    Alike [⟨w.recast r, thread⟩] [⟨w, thread⟩] := by
  obtain ⟨n, control, stack⟩ := thread
  constructor
  · intro p
    simp only [Exchange.history, List.flatMap_singleton]
    cases control with
    | perform op =>
      cases op with
      | unregister =>
        simp only [Moment.happenings, World.receives, World.recast_isAlive h]
        rfl
      | _ => rfl
    | resume reply => cases stack <;> rfl
    | unwind payload =>
      cases stack with
      | nil => rfl
      | cons frame stack => cases frame <;> rfl
    | _ => rfl
  · rfl
  · rfl
  · simp only [outermostReturns, List.filter_singleton, Moment.isOutermost]
    cases stack.all _ <;> rfl
  · cases control with
    | act act => cases act <;> rfl
    | _ => rfl

theorem diagnoses_append : diagnoses (first ++ second) = diagnoses first ++ diagnoses second :=
  List.filterMap_append

theorem invocations_append :
    invocations p (first ++ second) = invocations p first ++ invocations p second := by
  rw [invocations, history_append, List.filter_append]
  rfl

theorem callbacks_append : callbacks (first ++ second) = callbacks first ++ callbacks second :=
  List.filterMap_append

theorem returns_append : returns (first ++ second) = returns first ++ returns second :=
  List.filterMap_append

/-- Of what is told by the moment at which something is reported the diagnostic is all. -/
theorem invocations_of_report (h : moment.thread.control.isReport) : invocations p [moment] = [] := by
  obtain ⟨w, n, control, stack⟩ := moment
  cases control with
  | act due =>
    cases due with
    | report sink kind label reason =>
      simp only [invocations, history, List.flatMap_singleton, Moment.happenings, World.does]
      split <;> rfl
    | _ => cases h
  | _ => cases h

theorem returns_of_report (h : moment.thread.control.isReport) : returns [moment] = [] := by
  obtain ⟨w, n, control, stack⟩ := moment
  cases control with
  | act due => exact List.filterMap_cons_none (ite_self _)
  | _ => cases h

theorem diagnoses_of_report (h : moment.thread.control.isReport) :
    (diagnoses [moment]).map (·.2.seq) = [moment.world.nextSeq] := by
  obtain ⟨w, n, control, stack⟩ := moment
  cases control with
  | act due => cases due <;> first | rfl | cases h
  | _ => cases h

theorem diagnoses_of_not_report (h : moment.thread.control.isReport = false) :
    diagnoses [moment] = [] := by
  obtain ⟨w, n, control, stack⟩ := moment
  cases control with
  | act due => cases due <;> first | rfl | cases h
  | _ => rfl

/-- Diagnostics are numbered in the order of their creation. -/
theorem numbers_snoc (moment : Moment M E K H)
    (h : (diagnoses trail).map (·.2.seq) = List.range moment.world.nextSeq) :
    (diagnoses (trail ++ [moment])).map (·.2.seq) =
      List.range (moment.world.nextSeq + if moment.thread.control.isReport then 1 else 0) := by
  rw [diagnoses_append, List.map_append, h]
  cases hr : moment.thread.control.isReport with
  | true => rw [diagnoses_of_report hr, if_pos rfl, List.range_succ]
  | false =>
    rw [diagnoses_of_not_report hr, List.map_nil, List.append_nil, if_neg Bool.false_ne_true, Nat.add_zero]

theorem numbers_length {diagnoses : List (Sink K × Diagnostic)} {seq : Nat}
    (h : diagnoses.map (·.2.seq) = List.range seq) :
    diagnoses.map (·.2.seq) = List.range diagnoses.length := by
  have hlength := congrArg List.length h
  rw [List.length_map, List.length_range] at hlength
  rw [h, hlength]

/-! ## Panics that are spared -/

/-- A callback that has its turn has panicked, and is to be spared: that is said of the point and of the
number of the turn there. -/
def spares (spared : Nat → Nat → Bool) (trail : List (Moment M E K H)) (thread : Thread M E K H) : Bool :=
  match thread.control, thread.stack with
  | .unwind _, .delivering p :: _ => spared p (turnCount p trail)
  | _, _ => false

theorem Alike.spares (h : Alike second first) :
    spares spared second thread = spares spared first thread := by
  unfold Exchange.spares
  split
  · rw [h.turnCount]
  · rfl

/-- A run in which callbacks that are to be spared their panics decline instead. A notice declines by
returning at all. -/
inductive Sparing (client : Client M E K H) (spared : Nat → Nat → Bool) (start : World M E K H) :
    List (Moment M E K H) → World M E K H → Prop
  | refl : Sparing client spared start [] start
  | step {trail : List (Moment M E K H)} {w w' : World M E K H} {t : Nat} {thread : Thread M E K H} :
      Sparing client spared start trail w → w.thread? t = some thread →
      spares spared trail thread = false → w.step client t = some w' →
      Sparing client spared start (trail ++ [⟨w, thread⟩]) w'
  | declines {trail : List (Moment M E K H)} {w : World M E K H} {t : Nat} {thread : Thread M E K H} :
      Sparing client spared start trail w → w.thread? t = some thread → spares spared trail thread →
      Sparing client spared start trail (w.put t (.resume (.keep false)) thread.stack)
  | between {trail : List (Moment M E K H)} {w w' : World M E K H} :
      Sparing client spared start trail w → Between client w w' → Sparing client spared start trail w'

/-- What is left of a trail without the reports of the panics that are spared, and the threads about to
make such a report. -/
structure Omission (M E K H : Type) where
  due : List Nat := []
  kept : List (Moment M E K H) := []

/-- The next moment of a thread whose panic is spared is the report. -/
def Omission.next (spared : Nat → Nat → Bool) (omission : Omission M E K H) (m : Moment M E K H) :
    Omission M E K H :=
  if omission.due.contains m.thread.id then
    { omission with due := omission.due.filter (· ≠ m.thread.id) }
  else
    { due := if spares spared omission.kept m.thread then m.thread.id :: omission.due else omission.due
      kept := omission.kept ++ [m] }

def omission (spared : Nat → Nat → Bool) (trail : List (Moment M E K H)) : Omission M E K H :=
  trail.foldl (Omission.next spared) {}

/-- The trail without the reports of the panics that are spared. -/
def unreported (spared : Nat → Nat → Bool) (trail : List (Moment M E K H)) : List (Moment M E K H) :=
  (omission spared trail).kept

theorem omission_snoc :
    omission spared (trail ++ [moment]) = (omission spared trail).next spared moment := by
  simp [omission]

theorem omission_of_due (moment : Moment M E K H)
    (h : (omission spared trail).due.contains moment.thread.id) :
    omission spared (trail ++ [moment]) =
      ⟨(omission spared trail).due.filter (· ≠ moment.thread.id), unreported spared trail⟩ := by
  rw [omission_snoc, Omission.next, if_pos h]
  rfl

theorem omission_of_not_due (moment : Moment M E K H)
    (h : (omission spared trail).due.contains moment.thread.id = false) :
    omission spared (trail ++ [moment]) =
      ⟨if spares spared (unreported spared trail) moment.thread
        then moment.thread.id :: (omission spared trail).due else (omission spared trail).due,
        unreported spared trail ++ [moment]⟩ := by
  rw [omission_snoc, Omission.next, h, if_neg Bool.false_ne_true]
  rfl

end Exchange
