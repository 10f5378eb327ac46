import Exchange.Proofs.Answers
import Exchange.Proofs.Beside
import Exchange.Proofs.Stretch

/-!
Registrations from inside the pass of their point. Such a call is refused: one report is made and the caller
is told. The thread that makes it runs no callback meanwhile, and changes nothing but the number of the next
diagnostic and what the sinks record.
-/

namespace Exchange
set_option autoImplicit false

variable {M E K H V : Type} {client : Client M E K H} {u w x : World M E K H} {n p : Nat}
  {thread : Thread M E K H}
variable {control : Control M E K H} {stack below rest : List (Frame M E K H)} {m : Move M E K H}
variable {trail during : List (Moment M E K H)} {view : H → V} {point : Point M E K} {told : Bool}
variable {interest : Interest} {code : K}

/-- A registration is asked for from inside the pass of its point. -/
def Moment.isMisplaced (m : Moment M E K H) : Bool :=
  match m.thread with
  | ⟨n, .perform (.register p _ _), .caller _ :: _⟩ =>
    m.world.points[p]?.any fun point => point.phase.access n = .inside
  | _ => false

/-- What the caller is told. -/
def refusal : Reply M K := .registered (.error .reentrantRegistration)

/-- What is reported. -/
def Point.refusal (p : Nat) (point : Point M E K) : Act M E K :=
  point.report p .reentrantCall (some Misuse.reentrantRegistration.label)

/-- The diagnostic that is created, but for its number. -/
def Point.refusalReport (p : Nat) (point : Point M E K) : Sink K × Kind × Option String × Option String :=
  (point.sink, .reentrantCall, some (Point.label p), some "usage_reentrant_registration")

theorem Moment.isMisplaced_some (h : Moment.isMisplaced ⟨w, thread⟩) : ∃ n p interest code next rest point,
    thread = ⟨n, .perform (.register p interest code), .caller next :: rest⟩ ∧
      w.points[p]? = some point ∧ point.phase.access n = .inside := by
  unfold isMisplaced at h
  split at h
  · rename_i hthread
    obtain ⟨point, hp, hinside⟩ := (Option.any_eq_true _ _).mp h
    exact ⟨_, _, _, _, _, _, point, hthread, hp, of_decide_eq_true hinside⟩
  · cases h

theorem Moment.not_isMisplaced (h : ∀ op, control ≠ .perform op) :
    Moment.isMisplaced ⟨w, ⟨n, control, stack⟩⟩ = false := by
  cases control <;> first | rfl | exact absurd rfl (h _)

theorem Moment.isMisplaced_congr {v : World M E K H} (h : v.points = w.points) :
    Moment.isMisplaced ⟨v, thread⟩ = Moment.isMisplaced ⟨w, thread⟩ := by
  rw [isMisplaced, isMisplaced, h]

theorem Moment.not_isMisplaced_of_reporting (h : thread.isReporting ∨ thread.control.isReport) :
    Moment.isMisplaced ⟨w, thread⟩ = false := by
  obtain ⟨n, control, stack⟩ := thread
  refine Moment.not_isMisplaced ?_
  rintro op rfl
  simp [Thread.isReporting, Control.isReport] at h

/-- Callbacks are run by acts. -/
theorem invocations_of_not_act {q : Nat} (h : ∀ due, control ≠ .act due) :
    invocations q [⟨w, ⟨n, control, stack⟩⟩] = [] := by
  refine List.filter_eq_nil_iff.mpr fun happening hmem hinvoked => ?_
  rw [history, List.flatMap_singleton] at hmem
  have hdeed : happening.isDeed := by cases happening <;> first | rfl | cases hinvoked
  obtain ⟨due, hdue, -⟩ := Moment.act_of_deed hmem hdeed
  exact h due hdue

theorem World.move_misplaced (hp : w.points[p]? = some point) (hinside : point.phase.access n = .inside) :
    w.move client n below (.perform (.register p interest code)) =
      some (.acts w below p [point.refusal p] refusal) := by
  simp only [move, perform, hp, register, hinside]
  rfl

/-- So are callbacks, of any point. -/
theorem callbacks_of_not_act (h : ∀ due, control ≠ .act due) : callbacks [⟨w, ⟨n, control, stack⟩⟩] = [] := by
  cases control <;> first | rfl | exact absurd rfl (h _)

theorem callbacks_of_report {moment : Moment M E K H} (h : moment.thread.control.isReport) :
    callbacks [moment] = [] := by
  obtain ⟨w, n, control, stack⟩ := moment
  cases control with
  | act due => cases due <;> first | rfl | cases h
  | _ => cases h

/-- How far a call has come that is refused, and whether that has been reported. -/
inductive Refused (view : H → V) (p : Nat) (point : Point M E K) (below : List (Frame M E K H)) :
    Bool → Control M E K H → List (Frame M E K H) → Prop
  | refused : Refused view p point below false (.resume .done) (.acts p [point.refusal p] refusal :: below)
  | reports : Refused view p point below false (.act (point.refusal p)) (.acts p [] refusal :: below)
  | reporting {control : Control M E K H} {stack : List (Frame M E K H)} : Reporting view control stack →
      beneath stack = .acts p [] refusal :: below → Refused view p point below true control stack
  | answered : Refused view p point below true (.resume refusal) below

/-- Nothing is below of which reports are made. -/
def Plain (stack : List (Frame M E K H)) : Prop := ∀ frame ∈ stack, frame.reports = false

theorem Plain.acts {todo : List (Act M E K)} {answer : Reply M K} (h : Plain below) :
    Plain (.acts p todo answer :: below) := by
  intro frame hframe
  rcases List.mem_cons.mp hframe with rfl | hframe
  · rfl
  · exact h frame hframe

namespace Refused

theorem step (h : Refused view p point below told control stack) (hc : client.Records view)
    (hbelow : Plain below) (hback : ¬(stack = below ∧ control.IsReturn))
    (hm : w.move client n stack control = some m) :
    Refused view p point below (told || control.isReport) m.control m.stack ∧
      ∃ host, m.world = { w with host, nextSeq := w.nextSeq + if control.isReport then 1 else 0 } ∧
        view host = view w.host := by
  cases h with
  | refused =>
    cases hm
    exact ⟨.reports, w.host, rfl, rfl⟩
  | reports =>
    have ha : Thread.Apart ⟨n, .act (point.refusal p), .acts p [] refusal :: below⟩ :=
      ⟨hbelow.acts, List.cons_ne_nil _ _⟩
    obtain ⟨hbeneath, hbears, sink, kind, label, reason, -, rfl⟩ := ha.reports rfl hm
    exact ⟨.reporting (.delivers _ _ hbears) hbeneath, w.host, rfl, rfl⟩
  | reporting hreporting hbeneath =>
    rw [hreporting.not_report]
    cases hr : Thread.isReporting (⟨n, control, stack⟩ : Thread M E K H) with
    | true =>
      obtain ⟨hgoes, hsame, host, hworld, hview⟩ := hreporting.step hc hr hm
      exact ⟨.reporting hgoes (hsame.trans hbeneath), host, hworld, hview⟩
    | false =>
      have ha : Thread.Apart ⟨n, control, stack⟩ := hreporting.apart hr
      obtain rfl : stack = .acts p [] refusal :: below := (beneath_eq ha.stack).symm.trans hbeneath
      cases hreporting with
      | delivers => exact ha.control.elim
      | records _ hf => cases hf
      | returns =>
        cases hm
        exact ⟨.answered, w.host, rfl, rfl⟩
  | answered => exact absurd ⟨rfl, trivial⟩ hback

theorem ne_nil (h : Refused view p point below told control stack) (hbelow : below ≠ []) : stack ≠ [] := by
  cases h with
  | reporting _ hbeneath =>
    rintro rfl
    cases hbeneath
  | answered => exact hbelow
  | _ => exact List.cons_ne_nil _ _

/-- What is back is the refusal, and it has been reported. -/
theorem of_back (h : Refused view p point below told control below) (hbelow : Plain below) :
    control = .resume refusal ∧ told := by
  have longer {frame : Frame M E K H} (heq : frame :: below = below) : False := by
    have hlength := congrArg List.length heq
    simp at hlength
  cases h with
  | reporting _ hbeneath =>
    rw [beneath_eq hbelow] at hbeneath
    exact (longer hbeneath.symm).elim
  | answered => exact ⟨rfl, rfl⟩

theorem not_act (h : Refused view p point below told control stack) (hr : control.isReport = false) :
    ∀ due, control ≠ .act due := by
  rintro due rfl
  generalize hcontrol : Control.act due = control at h hr
  cases h with
  | reports => cases hr
  | reporting hreporting => cases hreporting <;> cases hcontrol
  | _ => cases hcontrol

theorem not_isMisplaced (h : Refused view p point below told control stack) :
    Moment.isMisplaced ⟨w, ⟨n, control, stack⟩⟩ = false := by
  refine Moment.not_isMisplaced ?_
  rintro op rfl
  generalize hcontrol : Control.perform op = control at h
  cases h with
  | reporting hreporting => cases hreporting <;> cases hcontrol
  | _ => cases hcontrol

/-- The thread runs no callback, and the report is all that it reports. -/
theorem tells (h : Refused view p point below told control stack) :
    (∀ q, invocations q [⟨w, ⟨n, control, stack⟩⟩] = []) ∧ callbacks [⟨w, ⟨n, control, stack⟩⟩] = [] ∧
      (diagnoses [⟨w, ⟨n, control, stack⟩⟩]).map unnumbered = if control.isReport then
        [point.refusalReport p] else [] := by
  cases hr : control.isReport with
  | true =>
    refine ⟨fun _ => invocations_of_report hr, callbacks_of_report hr, ?_⟩
    cases h with
    | reporting hreporting =>
      rw [hreporting.not_report] at hr
      cases hr
    | reports => rfl
    | _ => cases hr
  | false =>
    refine ⟨fun q => invocations_of_not_act (h.not_act hr), callbacks_of_not_act (h.not_act hr), ?_⟩
    rw [diagnoses_of_not_report hr]
    rfl

end Refused

/-! ## The call -/

/-- The thread runs no callback, and that is all that it reports. -/
structure TellsOnly (n : Nat) (reports : List (Sink K × Kind × Option String × Option String))
    (trail : List (Moment M E K H)) : Prop where
  callbacks : callbacks (ownMoments n trail) = []
  reports : (diagnoses (ownMoments n trail)).map unnumbered = reports

namespace TellsOnly
variable {reports more : List (Sink K × Kind × Option String × Option String)} {moment : Moment M E K H}

theorem nil : TellsOnly n [] ([] : List (Moment M E K H)) := ⟨rfl, rfl⟩

theorem snoc (h : TellsOnly n reports trail) (hid : moment.thread.id = n)
    (hcallbacks : Exchange.callbacks [moment] = [])
    (hreports : (diagnoses [moment]).map unnumbered = more) :
    TellsOnly n (reports ++ more) (trail ++ [moment]) := by
  constructor
  · rw [ownMoments_snoc_self hid, callbacks_append, h.callbacks, hcallbacks, List.append_nil]
  · rw [ownMoments_snoc_self hid, diagnoses_append, List.map_append, h.reports, hreports]

theorem snoc_other (h : TellsOnly n reports trail) (hid : moment.thread.id ≠ n) :
    TellsOnly n reports (trail ++ [moment]) :=
  ⟨(ownMoments_snoc_ne hid).symm ▸ h.callbacks, (ownMoments_snoc_ne hid).symm ▸ h.reports⟩

end TellsOnly

section
variable (call : Call client n below (.register p interest code) u during x) (hc : client.Records view)
variable (hu : u.Recorded view) (hp : u.points[p]? = some point)
variable (hinside : point.phase.access n = .inside) (hbelow : Plain below) (hne : below ≠ [])
include call hc hu hp hinside hbelow hne

/-- How far the call has come at each of its moments. -/
theorem Call.refused : ∃ told control stack, x.thread? n = some ⟨n, control, stack⟩ ∧
    Refused view p point below told control stack ∧
    TellsOnly n (if told then [point.refusalReport p] else []) during := by
  induction call with
  | made ht hstep =>
    obtain ⟨m, hm, hthread⟩ := World.thread?_of_step hu.orderly ht hstep
    have hmove : u.move client n below (.perform (.register p interest code)) = some _ :=
      World.move_misplaced hp hinside
    cases hmove.symm.trans hm
    exact ⟨false, _, _, hthread, .refused, TellsOnly.nil.snoc rfl
      (callbacks_of_not_act nofun) rfl⟩
  | @step during w w' n' thread call hback hthread hstep ih =>
    obtain ⟨told, control, stack, hown, hrefused, htells⟩ := ih
    have ho := (call.run.recorded hc hu).1.orderly
    by_cases hsame : n' = n
    · subst hsame
      cases hthread.symm.trans hown
      obtain ⟨m, hm, hnext⟩ := World.thread?_of_step ho hthread hstep
      have hnot : ¬(stack = below ∧ control.IsReturn) := by
        rintro ⟨rfl, hreturn⟩
        exact hback ⟨control, hown, hreturn⟩
      obtain ⟨-, hcallbacks, hreports⟩ := hrefused.tells (w := w) (n := n')
      have hsnoc := htells.snoc rfl hcallbacks hreports
      refine ⟨_, _, _, hnext, (hrefused.step hc hbelow hnot hm).1, ?_⟩
      have hreport : (if told then [point.refusalReport p] else []) ++
          (if control.isReport then [point.refusalReport p] else []) =
          if told || control.isReport then [point.refusalReport p] else [] := by
        cases hrefused with
        | reporting hreporting => simp [hreporting.not_report]
        | _ => rfl
      exact hreport ▸ hsnoc
    · obtain ⟨⟨m, -, stepped⟩, ho'⟩ := World.step_stepped ho hthread hstep
      refine ⟨told, control, stack, stepped.keeps ho' hown (Ne.symm hsame) (hrefused.ne_nil hne), hrefused,
        htells.snoc_other ?_⟩
      exact fun hid => hsame ((World.id_of_thread? hthread).symm.trans hid)
  | @between during w w' call hback hb ih =>
    obtain ⟨told, control, stack, hown, hrefused, htells⟩ := ih
    obtain ⟨hinterlude, ho⟩ := World.between_interlude (call.run.recorded hc hu).1.orderly hb
    exact ⟨told, control, stack, World.keeps_of_interlude hinterlude ho hown (hrefused.ne_nil hne), hrefused,
      htells⟩

/-- It comes back with the refusal, which has been reported. -/
theorem Call.comes_back_refused (hback : x.IsBack n below) :
    x.thread? n = some ⟨n, .resume refusal, below⟩ ∧ TellsOnly n [point.refusalReport p] during := by
  obtain ⟨told, control, stack, hown, hrefused, htells⟩ := call.refused hc hu hp hinside hbelow hne
  obtain ⟨control', hthread, -⟩ := hback
  cases hown.symm.trans hthread
  obtain ⟨rfl, rfl⟩ := hrefused.of_back hbelow
  exact ⟨hown, htells⟩

end

/-- One step more of a thread, which leaves the others alone. -/
theorem Run.step_put {v : World M E K H} {control' : Control M E K H} {stack' : List (Frame M E K H)}
    (run : Run client u trail (w.put n control stack)) (hn : (w.thread? n).isSome)
    (hm : (w.put n control stack).move client n stack control = some ⟨v.put n control stack, control', stack'⟩) :
    Run client u (trail ++ [⟨w.put n control stack, ⟨n, control, stack⟩⟩]) (v.put n control' stack') := by
  have hstep := run.step (World.thread?_put hn) (World.step_of_move (World.thread?_put hn) hm)
  rwa [World.put_put] at hstep

/-- The thread can always go on by itself until the call is back. -/
theorem World.refusal_comes_back (ht : u.thread? n = some ⟨n, .perform (.register p interest code), below⟩)
    (hc : client.Records view) (hp : u.points[p]? = some point)
    (hinside : point.phase.access n = .inside) :
    ∃ during x, Call client n below (.register p interest code) u during x ∧ x.IsBack n below := by
  have hn : (u.thread? n).isSome := Option.isSome_of_eq_some ht
  have hmove : u.move client n below (.perform (.register p interest code)) = some _ :=
    World.move_misplaced hp hinside
  have hmade := World.step_of_move ht hmove
  have hfirst : Run client (u.put n (.resume .done) (.acts p [point.refusal p] refusal :: below)) [] _ := .refl
  have hsecond := hfirst.step_put (v := u) hn rfl
  have hthird := hsecond.step_put (v := { u with nextSeq := u.nextSeq + 1 }) hn rfl
  obtain ⟨later, host, hreported, -, -⟩ := Passes.deliver (v := { u with nextSeq := u.nextSeq + 1 }) .run hc hn _
    point.sink _ _ u.host hthird
  have hlast := hreported.step_put (v := { u with host, nextSeq := u.nextSeq + 1 }) hn rfl
  obtain ⟨during, rest, y, -, call, -, hend⟩ := Call.of_run ht hmade hlast
  refine ⟨during, y, call, ?_⟩
  rcases hend with hback | ⟨-, rfl⟩
  · exact hback
  · exact ⟨_, World.thread?_put (w := { u with host, nextSeq := u.nextSeq + 1 }) hn, trivial⟩

end Exchange
