import Exchange.Proofs.Chronicle

/-!
Promises are kept. What has been promised on a point and not been kept stands on the stack of some
thread; no panic comes where it would be dropped. So once all calls have returned every promise has
been kept, just once.
-/

namespace Exchange
set_option autoImplicit false

variable {M E K H : Type} {client : Client M E K H} {w w' : World M E K H} {t : Nat}
  {thread : Thread M E K H}
variable {control : Control M E K H} {stack : List (Frame M E K H)}
  {m : Move M E K H}
variable {p : Nat} {v : Service} {point : Point M E K}

/-! ## What the parts of a step promise and keep -/

theorem Point.receives_keeps (op : Op M E K) :
    (point.receives op).flatMap Happening.keeps = [] := by
  cases op <;> simp only [Point.receives] <;> (try split) <;> simp

theorem World.receives_keeps (op : Op M E K) : (w.receives p op).flatMap Happening.keeps = [] := by
  cases op <;> simp only [World.receives] <;> repeat' split
  all_goals first | rfl | exact Point.receives_keeps _

theorem World.does_promises (top : Option (Frame M E K H)) (due : Act M E K) :
    (w.does p top due).flatMap Happening.promises = [] := by
  cases due <;> simp only [World.does] <;> repeat' split
  all_goals rfl

theorem World.does_keeps (top : Option (Frame M E K H)) (due : Act M E K) :
    (w.does p top due).flatMap Happening.keeps =
      (due.promise? p (top.bind Frame.holder?)).toList := by
  cases due with
  | report sink kind label reason =>
    by_cases hlabel : label = some (Point.label p) <;> by_cases hkind : kind = .lateEvent <;>
      simp [does, hlabel, hkind]
  | present code event =>
    simp only [does, Act.promise?]
    repeat' split
    all_goals rfl
  | notify n notice =>
    cases top with
    | none => simp [does]
    | some frame =>
      cases frame <;> simp [does]
      case acts q _ _ => by_cases hq : q = p <;> simp [hq]
      case delivering q =>
        by_cases hq : q = p
        · cases hphase : w.phase p <;> simp [hq, Phase.occasion]
        · simp [hq]
  | _ => rfl

theorem Frame.IsPlain.promises {frame : Frame M E K H} (h : frame.IsPlain) :
    frame.promises p = [] := by
  cases frame <;> first | rfl | exact h.elim

theorem Frame.IsFanOut.promises {frame : Frame M E K H} (h : frame.IsFanOut) :
    frame.promises p = [] := by
  cases frame <;> first | rfl | exact h.elim

theorem promisesOf_return {frame : Frame M E K H} (h : control.IsReturn) :
    promisesOf p control (frame :: stack) = frame.promises p ++
      stack.flatMap (Frame.promises p) := by
  cases control <;> first | exact h.elim | rfl

theorem flatMap_promises_of_isFanOut {frames : List (Frame M E K H)}
    (h : ∀ frame ∈ frames, frame.IsFanOut) : frames.flatMap (Frame.promises p) = [] := by
  apply List.flatMap_eq_nil_iff.mpr
  intro frame hframe
  exact (h frame hframe).promises

/-- A frame that a panic leaves behind has promised nothing. -/
theorem Frame.promises_of_not_isSteady {frame : Frame M E K H} (h : ¬frame.IsSteady) :
    frame.promises p = [] := by
  cases frame with
  | acts q todo answer =>
    apply List.filterMap_eq_nil_iff.mpr
    intro act hact
    apply Act.promise?_of_not_isDue
    intro hdue
    exact h ⟨act, hact, hdue⟩
  | _ => rfl

theorem filterMap_promise?_of_isAside {holder : Option Nat} {todo : List (Act M E K)}
    (h : ∀ act ∈ todo, act.IsAside) : todo.filterMap (Act.promise? p holder) = [] := by
  apply List.filterMap_eq_nil_iff.mpr
  intro act hact
  exact Act.promise?_of_isAside (h act hact)

/-- A step that is neither a call nor an act, and no turn of a call that serves a point, keeps all
promises where they are. -/
theorem Stride.promises (h : Stride client w t control stack m) {n : Nat}
    (hd : Thread.Disciplined ⟨n, control, stack⟩)
    (hcall : ∀ op, control ≠ .perform op) (hact : ∀ due, control ≠ .act due)
    (hserve : ∀ reply q, control = .resume reply → stack.head? ≠ some (.serving q)) :
    promisesOf p m.control m.stack = promisesOf p control stack := by
  cases h with
  | answers => exact absurd rfl (hcall _)
  | owes => exact absurd rfl (hcall _)
  | serves => exact absurd rfl (hcall _)
  | emits => exact absurd rfl (hcall _)
  | attempts => exact absurd rfl (hcall _)
  | forks => exact absurd rfl (hcall _)
  | forksAndWaits => exact absurd rfl (hcall _)
  | acts => exact absurd rfl (hact _)
  | gives => exact absurd rfl (hserve _ _ rfl)
  | advances => exact absurd rfl (hserve _ _ rfl)
  | drops => exact absurd rfl (hserve _ _ rfl)
  | retires => exact absurd rfl (hserve _ _ rfl)
  | returns => rfl
  | panics => rfl
  | changes => rfl
  | calls => rfl
  | joins => rfl
  | joinsPanic => rfl
  | tells => rfl
  | records => rfl
  | @fansOut _ _ _ frame hf =>
    change frame.promises p ++ stack.flatMap (Frame.promises p) = stack.flatMap (Frame.promises p)
    rw [hf.promises, List.nil_append]
  | goesOn => rfl
  | @handsOn reply rest frame frame' _ _ hf hf' =>
    change frame'.promises p ++ rest.flatMap (Frame.promises p) =
      frame.promises p ++ rest.flatMap (Frame.promises p)
    rw [hf.promises, hf'.promises]
  | fansOn frames hr _ hf hfs =>
    rw [promisesOf_return hr, hf.promises]
    change (frames ++ _).flatMap _ = _
    rw [List.flatMap_append, flatMap_promises_of_isFanOut hfs]
  | runsOn _ _ hr =>
    rw [promisesOf_return hr]
    rfl
  | closes _ hr _ _ haside =>
    rw [promisesOf_return hr]
    change List.filterMap _ _ ++ _ = _
    rw [filterMap_promise?_of_isAside haside]
    rfl
  | pops _ hr _ hplain =>
    rw [promisesOf_return hr, hplain.promises]
    rfl
  | unwinds =>
    rw [promisesOf_return (Control.isReturn_unwind _),
      Frame.promises_of_not_isSteady (hd.fits _ rfl)]
    rfl
  | settles => rfl
  | @proceeds reply rest q first todo answer =>
    simp only [promisesOf, Control.promises, List.head?_cons, Option.bind_some, Frame.holder?,
      List.flatMap_cons, Frame.promises, List.filterMap_cons, List.nil_append]
    cases Act.promise? p (some q) first <;> simp
  | leaves hr =>
    rw [promisesOf_return hr]
    rfl
  | catches => simp [promisesOf]

theorem World.offer_promises {q : Nat} {entry : Entry K} {event : Event M E} :
    promisesOf p (w.offer stack q point entry event).control
      (w.offer stack q point entry event).stack = stack.flatMap (Frame.promises p) := by
  unfold offer
  split
  · cases entry <;> simp [promisesOf, Entry.act]
  · rfl

theorem World.serve_promises (q : Nat) :
    promisesOf p (w.serve t stack q point).control (w.serve t stack q point).stack =
      (if q = p then point.phase.progress.flatMap Happening.promises else []) ++
        stack.flatMap (Frame.promises p) := by
  cases hphase : point.phase with
  | listening entries => simp [serve, hphase, Phase.progress, promisesOf, Move.answer]
  | dispatching owner pass =>
    cases hwaiting : pass.waiting with
    | cons entry rest =>
      have hdue : point.phase.due = some (entry, pass.event) := by
        simp [hphase, Phase.due, hwaiting]
      rw [serve_of_due hdue, offer_promises]
      simp [Phase.progress, hwaiting]
    | nil =>
      have hprogress : (Phase.dispatching owner pass).progress.flatMap Happening.promises = [] := by
        simp only [Phase.progress, hwaiting, if_true]
        split <;> rfl
      simp only [hprogress, serve, hphase, hwaiting, Move.answer, ite_self, List.nil_append]
      split <;> rfl
  | ended farewell =>
    obtain ⟨event, waiting, late⟩ := farewell
    cases waiting with
    | cons entry rest =>
      have hdue : point.phase.due = some (entry, event) := by simp [hphase, Phase.due]
      rw [serve_of_due hdue, offer_promises]
      simp [Phase.progress]
    | nil =>
      cases late with
      | cons dropped late =>
        by_cases hq : q = p <;> simp [serve, hphase, Phase.progress, promisesOf, Point.report, hq]
      | nil => simp [serve, hphase, Phase.progress, promisesOf, Move.answer]

theorem Phase.progress_keeps (phase : Phase M E K) :
    phase.progress.flatMap Happening.keeps = [] := by
  unfold Phase.progress
  repeat' split
  all_goals rfl

/-! ## Steps -/

theorem World.returns_delivering {q : Nat} {stays : Entry K → Bool}
    {told : Happening M E K → List Promise}
    (h : ∀ entry stays, told (.left entry stays) = []) :
    (w.returns p stays (.delivering q)).flatMap told = [] := by
  simp only [returns]
  split
  · cases (w.phase p).turn? <;> simp [h]
  · rfl

/-- Only a call that serves the point and those who make calls promise anything. -/
theorem Moment.promises_eq_nil {n : Nat} (hcall : ∀ op, control ≠ .perform op)
    (hserve : ∀ reply q, control = .resume reply → stack.head? ≠ some (.serving q)) :
    (Moment.happenings p ⟨w, ⟨n, control, stack⟩⟩).flatMap Happening.promises = [] := by
  cases control with
  | perform op => exact absurd rfl (hcall op)
  | act due => exact World.does_promises _ _
  | resume reply =>
    cases stack with
    | nil => rfl
    | cons frame stack =>
      cases frame with
      | serving q => exact absurd rfl (hserve reply q rfl)
      | delivering q => exact World.returns_delivering fun _ _ => rfl
      | _ => rfl
  | unwind payload =>
    cases stack with
    | nil => rfl
    | cons frame stack =>
      cases frame with
      | delivering q => exact World.returns_delivering fun _ _ => rfl
      | _ => rfl
  | _ => rfl

/-- Acts apart, no step keeps a promise. -/
theorem Moment.keeps_eq_nil {n : Nat} (hact : ∀ due, control ≠ .act due) :
    (Moment.happenings p ⟨w, ⟨n, control, stack⟩⟩).flatMap Happening.keeps = [] := by
  cases control with
  | perform op => exact World.receives_keeps op
  | act due => exact absurd rfl (hact due)
  | resume reply =>
    cases stack with
    | nil => rfl
    | cons frame stack =>
      cases frame with
      | serving q =>
        simp only [Moment.happenings, World.returns]
        split
        · exact Phase.progress_keeps _
        · rfl
      | delivering q => exact World.returns_delivering fun _ _ => rfl
      | _ => rfl
  | unwind payload =>
    cases stack with
    | nil => rfl
    | cons frame stack =>
      cases frame with
      | delivering q => exact World.returns_delivering fun _ _ => rfl
      | _ => rfl
  | _ => rfl

theorem World.resume_promises (reply : Reply M K) (q : Nat) {n : Nat} :
    promisesOf p (w.resume client t stack reply (.serving q)).control
      (w.resume client t stack reply (.serving q)).stack =
      (Moment.happenings p ⟨w, ⟨n, .resume reply, .serving q :: stack⟩⟩).flatMap
        Happening.promises ++ promisesOf p (.resume reply) (.serving q :: stack) := by
  have hframes : promisesOf p (.resume reply) (.serving q :: stack) =
      stack.flatMap (Frame.promises p) := rfl
  have hhappens : Moment.happenings p ⟨w, ⟨n, .resume reply, .serving q :: stack⟩⟩ =
      if q = p then (w.phase p).progress else [] := rfl
  rw [hframes, hhappens]
  cases hq : w.points[q]? with
  | some point =>
    simp only [resume, hq, serve_promises]
    split
    · rename_i h
      rw [← h, phase_eq hq]
    · rfl
  | none =>
    have hidle : (if q = p then (w.phase p).progress else []) = [] := by
      split
      · rename_i h
        simp [← h, phase, hq, Phase.progress]
      · rfl
    simp only [resume, hq, hidle, List.flatMap_nil, List.nil_append]
    rfl

/-- A step of a thread: what it promises is added to its promises, what it keeps is taken from them.
-/
theorem World.move_promises {n : Nat} (hm : w.move client t stack control = some m)
    (hd : Thread.Disciplined ⟨n, control, stack⟩) (hc : (w.standing p v).Coherent) :
    ((Moment.happenings p ⟨w, ⟨n, control, stack⟩⟩).flatMap Happening.keeps ++
      promisesOf p m.control m.stack).Perm
      (promisesOf p control stack ++
        (Moment.happenings p ⟨w, ⟨n, control, stack⟩⟩).flatMap Happening.promises) := by
  have stride := move_stride hm
  -- a step that neither promises nor keeps anything
  have plain (hcall : ∀ op, control ≠ .perform op) (hact : ∀ due, control ≠ .act due)
      (hserve : ∀ reply q, control = .resume reply → stack.head? ≠ some (.serving q)) :
      ((Moment.happenings p ⟨w, ⟨n, control, stack⟩⟩).flatMap Happening.keeps ++
        promisesOf p m.control m.stack).Perm
        (promisesOf p control stack ++
          (Moment.happenings p ⟨w, ⟨n, control, stack⟩⟩).flatMap Happening.promises) := by
    rw [Moment.keeps_eq_nil hact, Moment.promises_eq_nil hcall hserve, List.nil_append,
      List.append_nil, stride.promises hd hcall hact hserve]
  cases control with
  | perform op =>
    rw [Moment.keeps_eq_nil (by simp), List.nil_append]
    change List.Perm _
      (stack.flatMap (Frame.promises p) ++ (w.receives p op).flatMap Happening.promises)
    cases perform_performs hc hm with
    | passes frames hstack _ howes =>
      refine .trans (.of_eq ?_) List.perm_append_comm
      rw [← howes, promisesOf, hstack, List.flatMap_append, List.append_assoc]
    | serves _ hcontrol hstack hnone =>
      rw [hnone, hcontrol, hstack]
      simp [promisesOf]
  | act due =>
    obtain ⟨-, hleads, hstack⟩ := stride.of_act
    have hnext : promisesOf p m.control m.stack = stack.flatMap (Frame.promises p) := by
      rw [hstack]
      cases hcontrol : m.control with
      | act => exact absurd (hcontrol ▸ hleads) Act.not_leadsTo_act
      | _ => rfl
    rw [hnext]
    change ((w.does p stack.head? due).flatMap _ ++ _).Perm
      (_ ++ (w.does p stack.head? due).flatMap _)
    rw [does_keeps, does_promises, List.append_nil]
    rfl
  | resume reply =>
    cases stack with
    | nil => cases hm
    | cons frame rest =>
      by_cases hframe : ∃ q, frame = .serving q
      · obtain ⟨q, rfl⟩ := hframe
        rw [Moment.keeps_eq_nil (by simp), List.nil_append]
        cases hm
        refine .trans (.of_eq ?_) List.perm_append_comm
        exact resume_promises reply q
      · apply plain (by simp) (by simp)
        intro _ q _ h
        exact hframe ⟨q, Option.some.inj h⟩
  | eval code => exact plain (by simp) (by simp) (by simp)
  | deliver sink diagnostic => exact plain (by simp) (by simp) (by simp)
  | unwind payload => exact plain (by simp) (by simp) (by simp)
  | await child => exact plain (by simp) (by simp) (by simp)

/-! ## Runs -/

/-- All promises that are still to be kept. -/
def World.outstanding (w : World M E K H) (p : Nat) : List Promise :=
  w.threads.flatMap fun thread => promisesOf p thread.control thread.stack

theorem Thread.IsBare.promises (h : thread.IsBare) :
    promisesOf p thread.control thread.stack = [] := by
  obtain ⟨n, control, stack⟩ := thread
  cases control <;> cases stack <;> first | exact h.elim | rfl

theorem Thread.Begins.promises (h : thread.Begins) :
    promisesOf p thread.control thread.stack = [] := by
  cases h with
  | bare h => exact h.promises
  | turn => rfl
  | closing _ _ _ _ _ haside => simp [promisesOf, filterMap_promise?_of_isAside haside]

theorem flatMap_promises_eq_nil {threads : List (Thread M E K H)}
    (h : ∀ thread ∈ threads, promisesOf p thread.control thread.stack = []) :
    threads.flatMap (fun thread => promisesOf p thread.control thread.stack) = [] :=
  List.flatMap_eq_nil_iff.mpr h

/-- A step takes the promises that it keeps from those outstanding and adds those that it makes. -/
theorem World.outstanding_step (hw : w.Sound) (hc : (w.standing p v).Coherent)
    (ht : w.thread? t = some thread) (hs : w.step client t = some w') :
    ((Moment.happenings p ⟨w, thread⟩).flatMap Happening.keeps ++ w'.outstanding p).Perm
      (w.outstanding p ++ (Moment.happenings p ⟨w, thread⟩).flatMap Happening.promises) := by
  obtain ⟨⟨m, hm, stepped⟩, -⟩ := step_stepped hw.orderly ht hs
  have hmove := move_promises (n := thread.id) hm (hw.disciplined thread (mem_of_thread? ht)) hc
  obtain ⟨come, gone, kept, hbefore, hafter, hbare⟩ := stepped.succession
  have hcome := flatMap_promises_eq_nil (p := p) fun other h =>
    (hbare other (List.mem_append_left gone h)).promises
  have hgone := flatMap_promises_eq_nil (p := p) fun other h =>
    (hbare other (List.mem_append_right come h)).promises
  -- the other threads promise the same before and after
  have hold := hbefore.flatMap_right fun thread => promisesOf p thread.control thread.stack
  have hnew := hafter.flatMap_right fun thread => promisesOf p thread.control thread.stack
  rw [List.flatMap_cons, List.flatMap_append, hgone, List.nil_append] at hold
  rw [List.flatMap_cons, List.flatMap_append, hcome, List.nil_append] at hnew
  refine (hnew.append_left _).trans ?_
  rw [← List.append_assoc]
  refine (hmove.append_right _).trans ?_
  rw [List.append_assoc]
  refine (List.perm_append_comm.append_left _).trans ?_
  rw [← List.append_assoc]
  exact (hold.append_right _).symm

theorem World.outstanding_between (ho : w.Orderly) (hb : Between client w w') :
    (w'.outstanding p).Perm (w.outstanding p) := by
  obtain ⟨⟨-, come, gone, kept, hbefore, hafter, hgone, hcome⟩, -⟩ := between_interlude ho hb
  have hold := hbefore.flatMap_right fun thread => promisesOf p thread.control thread.stack
  have hnew := hafter.flatMap_right fun thread => promisesOf p thread.control thread.stack
  rw [List.flatMap_append, flatMap_promises_eq_nil fun other h => (hgone other h).promises,
    List.nil_append] at hold
  rw [List.flatMap_append, flatMap_promises_eq_nil fun other h => (hcome other h).promises,
    List.nil_append] at hnew
  exact hnew.trans hold.symm

/-- What has been promised on a point has been kept or is outstanding. -/
theorem Run.keeps_promises {host : H} {trail : List (Moment M E K H)}
    (run : Run client (.initial host) trail w) (hr : SinksReturn trail) :
    ((history p trail).flatMap Happening.keeps ++ w.outstanding p).Perm
      ((history p trail).flatMap Happening.promises) := by
  induction run with
  | refl => exact .refl _
  | @step trail w w' t thread run ht hs ih =>
    obtain ⟨hr, -⟩ := sinksReturn_append.mp hr
    obtain ⟨s, course, stands⟩ := run.course_of_initial hr p
    have hcoherent := stands.eq ▸ course.coherent Standing.initial_coherent
    have hstep := World.outstanding_step (run.sound (World.initial_sound host) hr) hcoherent ht hs
    have hlast : history p [⟨w, thread⟩] = Moment.happenings p ⟨w, thread⟩ := List.append_nil _
    rw [history_append, List.flatMap_append, List.flatMap_append, hlast, List.append_assoc]
    refine (hstep.append_left _).trans ?_
    rw [← List.append_assoc]
    exact (ih hr).append_right _
  | between run hb ih =>
    have ho := (run.sound (World.initial_sound host) hr).orderly
    exact ((World.outstanding_between ho hb).append_left _).trans (ih hr)

theorem World.outstanding_of_isQuiet (h : w.IsQuiet) : w.outstanding p = [] :=
  flatMap_promises_eq_nil fun thread hthread => (h thread hthread).promises

end Exchange
