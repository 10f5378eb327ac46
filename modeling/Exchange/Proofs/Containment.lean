import Exchange.Proofs.Decline
import Exchange.Proofs.Hands
import Exchange.Proofs.InterestEnd
import Exchange.Proofs.Lifecycle
import Exchange.Proofs.Silence

/-!
How far the panics of callbacks come. A callback that a point calls in its turn is guarded: its panic is
reported, once, and the entry leaves the list for good, while the call that serves the point goes on. A
callback that a call gives its event itself, because it comes too late or need not wait, is not guarded, and
its panic is the caller's.
-/

namespace Exchange
set_option autoImplicit false

variable {M E K H : Type} {client : Client M E K H} {w w' start : World M E K H} {p t n : Nat}
  {thread : Thread M E K H}
variable {control : Control M E K H} {stack below : List (Frame M E K H)} {m : Move M E K H}
variable {trail during : List (Moment M E K H)} {host : H} {op : Op M E K}

/-! ## Panics and their reports -/

/-- The report for which a panic calls that reaches a delivery to the point. -/
def Moment.panicReport? (p : Nat) (m : Moment M E K H) : Option (Act M E K) :=
  match m.thread.control, m.thread.stack with
  | .unwind payload, .delivering q :: _ =>
    if q = p then m.world.points[p]?.map fun point => point.report p .observerPanicked (some payload.info)
    else none
  | _, _ => none

/-- The report of a panic that the thread is about to make for the call that serves the point. -/
def Thread.panicReport? (p : Nat) (thread : Thread M E K H) : Option (Act M E K) :=
  match thread.control, thread.stack with
  | .act (.report sink kind label reason), .serving q :: _ =>
    if q = p ∧ kind = .observerPanicked then some (.report sink kind label reason) else none
  | _, _ => none

/-- The reports for which the panics in deliveries to the point call. -/
def callbackPanics (p : Nat) (trail : List (Moment M E K H)) : List (Act M E K) :=
  trail.filterMap (Moment.panicReport? p)

/-- The reports of panics that calls have made which serve the point. -/
def panicReports (p : Nat) (trail : List (Moment M E K H)) : List (Act M E K) :=
  trail.filterMap fun m => m.thread.panicReport? p

def World.panicReport? (w : World M E K H) (p t : Nat) : Option (Act M E K) :=
  (w.thread? t).bind (Thread.panicReport? p)

theorem Moment.panicReport?_of_control (h : ∀ payload, control ≠ .unwind payload) :
    Moment.panicReport? p ⟨w, ⟨t, control, stack⟩⟩ = none := by
  cases control with
  | unwind payload => exact absurd rfl (h payload)
  | _ => rfl

theorem Moment.panicReport?_of_top (h : ∀ q, stack.head? ≠ some (.delivering q)) :
    Moment.panicReport? p ⟨w, ⟨t, control, stack⟩⟩ = none := by
  unfold panicReport?
  split
  · rename_i hstack
    exact absurd (congrArg List.head? hstack) (h _)
  · rfl

theorem Thread.panicReport?_of_control (h : ∀ act, control ≠ .act act) :
    Thread.panicReport? p (⟨t, control, stack⟩ : Thread M E K H) = none := by
  cases control with
  | act act => exact absurd rfl (h act)
  | _ => rfl

theorem Thread.panicReport?_of_top (h : ∀ q, stack.head? ≠ some (.serving q)) :
    Thread.panicReport? p (⟨t, control, stack⟩ : Thread M E K H) = none := by
  unfold panicReport?
  split
  · rename_i hstack
    exact absurd (congrArg List.head? hstack) (h _)
  · rfl

theorem Thread.Begins.panicReport? (h : thread.Begins) : thread.panicReport? p = none := by
  cases h with
  | @bare thread h =>
    obtain ⟨id, control, stack⟩ := thread
    obtain rfl : stack = [] := h.stack_eq
    exact Thread.panicReport?_of_top (by simp)
  | turn => rfl
  | closing => rfl

/-- A panic that reaches a delivery is reported next, and no panic is reported otherwise. -/
theorem World.panicReport?_of_move (hm : w.move client n stack control = some m)
    (hd : Thread.Disciplined ⟨t, control, stack⟩) :
    Thread.panicReport? p ⟨t, m.control, m.stack⟩ =
      Moment.panicReport? p ⟨w, ⟨t, control, stack⟩⟩ := by
  have quiet (hafter : ∀ act, m.control ≠ .act act)
      (hbefore : (∀ payload, control ≠ .unwind payload) ∨ ∀ q, stack.head? ≠ some (.delivering q)) :
      Thread.panicReport? p ⟨t, m.control, m.stack⟩ =
        Moment.panicReport? p ⟨w, ⟨t, control, stack⟩⟩ := by
    rw [Thread.panicReport?_of_control hafter]
    exact (hbefore.elim Moment.panicReport?_of_control Moment.panicReport?_of_top).symm
  cases move_stride hm with
  | acts _ hleads =>
    refine quiet ?_ (.inl (by simp))
    rintro other rfl
    exact Act.not_leadsTo_act hleads
  | emits =>
    rw [Thread.panicReport?_of_top]
    · rfl
    · intro q hq
      exact hd.fits.1 _ hq trivial
  | fansOn _ _ _ hf =>
    refine quiet (by simp) (.inr ?_)
    rintro q ⟨⟩
    exact hf
  | runsOn => exact quiet (by simp) (.inr (by simp))
  | closes => exact quiet (by simp) (.inr (by simp))
  | pops _ _ _ hplain =>
    refine quiet (by simp) (.inr ?_)
    rintro q ⟨⟩
    exact hplain
  | unwinds _ hnot =>
    refine quiet (by simp) (.inr ?_)
    rintro q ⟨⟩
    exact hnot q rfl
  | proceeds => rw [Thread.panicReport?_of_top (by simp), Moment.panicReport?_of_control (by simp)]
  | gives => rw [Thread.panicReport?_of_top (by simp), Moment.panicReport?_of_control (by simp)]
  | drops => simp [Thread.panicReport?, Moment.panicReport?]
  | @leaves _ _ q _ hreturn =>
    rw [Thread.panicReport?_of_control (by simp)]
    cases control with
    | unwind payload =>
      cases hq : w.points[q]? with
      | none =>
        by_cases hsame : q = p
        · subst hsame
          simp [Moment.panicReport?, hq]
        · simp [Moment.panicReport?, hsame]
      | some point => simp [move, unwind, hq] at hm
    | resume => rfl
    | _ => exact hreturn.elim
  | @catches payload rest q _ sink =>
    obtain ⟨below, rfl⟩ := List.head?_eq_some_iff.mp (hd.stacked.1.serving q rfl)
    cases hq : w.points[q]? with
    | none => simp [move, unwind, hq, Move.answer] at hm
    | some point =>
      simp only [move, unwind, hq, Option.some.injEq, Move.mk.injEq, Control.act.injEq] at hm
      obtain ⟨-, hreport, -⟩ := hm
      by_cases hsame : q = p
      · subst hsame
        simp only [Moment.panicReport?, hq, if_true, Option.map_some, hreport]
        simp [Thread.panicReport?]
      · simp [Thread.panicReport?, Moment.panicReport?, hsame]
  | _ => exact quiet (by simp) (.inl (by simp))

/-- On each thread every panic in a delivery to the point is reported once, with its text and the label of
the point, and nothing else is reported as such a panic. -/
theorem Run.panics_are_reported (run : Run client (.initial host) trail w) (hr : SinksReturn trail)
    (p t : Nat) : callbackPanics p (trail.filter (·.thread.id = t)) =
      panicReports p (trail.filter (·.thread.id = t)) ++ (w.panicReport? p t).toList := by
  suffices h : Prompt (Moment.panicReport? p) (Thread.panicReport? p) t trail w from h
  have hnone : ∀ thread : Thread M E K H, thread.Begins → thread.panicReport? p = none :=
    fun _ h => h.panicReport?
  have hstart := World.initial_sound (M := M) (E := E) (K := K) host
  induction run with
  | refl => exact Prompt.initial hnone host
  | step run ht hs ih =>
    obtain ⟨hr, -⟩ := sinksReturn_append.mp hr
    have hsound := run.sound hstart hr
    refine (ih hr).of_step hnone hsound.orderly ht hs ?_
    intro m hm
    obtain rfl := World.id_of_thread? ht
    exact World.panicReport?_of_move hm (hsound.disciplined _ (World.mem_of_thread? ht))
  | between run hb ih => exact (ih hr).of_between hnone (run.sound hstart hr).orderly hb

/-! ## Who has panicked has no other turn -/

section
variable {s s' : Standing M E K} {history happenings later : List (Happening M E K)} {k : Key}
  {entry : Entry K} {event : Event M E}

/-- Whoever is in the middle of its turn has been given the event. -/
theorem Course.given_of_engaged (h : Course .initial history s) (hv : s.service = .engaged)
    (hdue : s.phase.due = some (entry, event)) : entry.given event s.phase.occasion ∈ history := by
  induction h with
  | refl => cases hv
  | @step history happenings s s' _ hchange ih =>
    cases hchange with
    | gives hdue' =>
      cases hdue'.symm.trans hdue
      exact List.mem_append_right _ List.mem_cons_self
    | rests => exact List.mem_append_left _ (ih hv hdue)
    | aside => exact List.mem_append_left _ (ih hv hdue)
    | awaitsInside => exact List.mem_append_left _ (ih hv hdue)
    | unregistersInside => exact List.mem_append_left _ (ih hv hdue)
    | pushesInside => exact List.mem_append_left _ (ih hv hdue)
    | awaitsLate => exact List.mem_append_left _ (ih hv hdue)
    | unregistersLate => exact List.mem_append_left _ (ih hv hdue)
    | pushesLate => exact List.mem_append_left _ (ih hv hdue)
    | _ => cases hv

/-- The entry of that key has been on the list, and is to be told nothing more. -/
structure Standing.Dismissed (s : Standing M E K) (k : Key) : Prop where
  unlisted : listed k s.pending = 0
  numbered : s.Numbers k

theorem Change.dismissed (h : Change s happenings s') (hc : s.Coherent) (ht : s.Tidy)
    (hs : s.Dismissed k) : s'.Dismissed k ∧ ∀ happening ∈ happenings, ¬happening.turns k := by
  have hunlisted := hs.unlisted
  obtain ⟨lost, htally, -⟩ := h.tally hc ht k
  obtain ⟨hkeeps, hjoined⟩ := h.numbers k
  have hnone : joined k happenings = 0 := hjoined.resolve_right fun h => h.2.1 hs.numbered
  refine ⟨⟨by omega, hkeeps hs.numbered⟩, ?_⟩
  intro happening hmem hturns
  obtain ⟨-, hpending⟩ := h.pending_of_turns hmem hturns
  omega

theorem Course.dismissed (course : Course .initial history s) (h : Course s later s')
    (hs : s.Dismissed k) : s'.Dismissed k ∧ ∀ happening ∈ later, ¬happening.turns k := by
  induction h with
  | refl => exact ⟨hs, by simp⟩
  | step before hchange ih =>
    obtain ⟨hdismissed, hsilent⟩ := ih
    have hall := course.trans before
    obtain ⟨hdismissed', hsilent'⟩ :=
      hchange.dismissed (hall.coherent Standing.initial_coherent) hall.tallied.tidy hdismissed
    refine ⟨hdismissed', ?_⟩
    intro happening hmem
    rcases List.mem_append.mp hmem with hmem | hmem
    · exact hsilent happening hmem
    · exact hsilent' happening hmem

theorem Tallied.numbered (ht : Tallied history s) (hjoined : 0 < joined k history) : s.Numbers k := by
  by_contra hnot
  have hnone := ht.fresh k hnot
  omega

/-- An entry that leaves the list is dismissed: it was there once only, or has been told of the end. -/
theorem Course.dismissed_of_left (course : Course .initial history s)
    (h : Change s [.left entry false] s') (hk : entry.goesBy k) : s'.Dismissed k := by
  have ht := course.tallied
  have ht' := (course.step h).tallied
  have hmost := ht.atMost k
  have honce := ht.once k
  have hmost' := ht'.atMost k
  have honce' := ht'.once k
  obtain ⟨phase, i, n, event, rfl, hdue, rfl⟩ := h.of_left
  have hheeds := (course.coherent Standing.initial_coherent).heeds (.inr rfl) hdue
  by_cases hlast : event.isLast
  · have hgiven := course.given_of_engaged rfl hdue
    have htold : 0 < told k (history ++ [.left entry false]) := by
      refine List.countP_pos_iff.mpr ⟨_, List.mem_append_left _ hgiven, ?_⟩
      simp [Happening.tells_given k (Phase.occasion_ne_call phase) hheeds, hlast, hk]
    exact ⟨by omega, ht'.numbered (by omega)⟩
  · cases phase with
    | listening => cases hdue
    | ended farewell =>
      obtain ⟨_, -, rfl, -⟩ := Phase.advance_ended false hdue
      exact absurd (ht.tidy.last _ rfl) hlast
    | dispatching owner pass =>
      obtain ⟨rest, hwaiting, rfl, hadvance⟩ := Phase.advance_dispatching false hdue
      rw [hadvance] at ht' ⊢
      have hpending : 0 < listed k (⟨.dispatching owner pass, .engaged, i, n⟩ : Standing M E K).pending := by
        simp [hlast, hwaiting, hk]
      refine ⟨?_, ht'.numbered ?_⟩
      · simp [hlast, hwaiting, hk, Pass.newcomers] at hmost ⊢
        omega
      · rw [joined_append]
        omega

end

/-- A callback that panics in its turn has no other turn. -/
theorem Run.panic_is_last_turn {first later : List (Moment M E K H)} {moment : Moment M E K H}
    {payload : Payload} {rest : List (Frame M E K H)} (run : Run client (.initial host) trail w)
    (hr : SinksReturn trail) (heq : trail = first ++ moment :: later)
    (hcontrol : moment.thread.control = .unwind payload)
    (htop : moment.thread.stack = .delivering p :: rest) :
    ∃ entry event, (moment.world.phase p).due = some (entry, event) ∧
      moment.happenings p = [.left entry false] ∧
      ∀ k, entry.goesBy k → (history p later).filter (Happening.turns k) = [] := by
  obtain ⟨s, s', s'', course, stands, hchange, hlater, -⟩ := run.course_through hr heq p
  obtain ⟨before, _, _, ht, -, -⟩ := run.split heq
  have hsound := before.sound (World.initial_sound host) (sinksReturn_append.mp (heq ▸ hr)).1
  have hengaged := stands.engaged hsound.orderly (World.mem_of_thread? ht) htop (by simp [hcontrol])
  obtain ⟨entry, event, hdue, -⟩ := (course.coherent Standing.initial_coherent).turn (.inr hengaged)
  rw [stands.phase_eq] at hdue
  have hleft := Moment.happenings_of_panic hcontrol htop hdue
  refine ⟨entry, event, hdue, hleft, ?_⟩
  intro k hk
  have hdismissed := course.dismissed_of_left (hleft ▸ hchange) hk
  exact List.filter_eq_nil_iff.mpr ((course.step hchange).dismissed hlater hdismissed).2

/-! ## How calls come back -/

def Act.IsReport : Act M E K → Prop
  | .report _ _ _ _ => True
  | _ => False

/-- The thread is about to make a report, to tell a sink of it, or to go on after it. -/
def Control.IsReporting : Control M E K H → Prop
  | .act due => due.IsReport
  | .deliver _ _ | .resume _ => True
  | _ => False

/-- The frame is that of a sink. -/
def Frame.IsSink : Frame M E K H → Prop
  | .receiving | .fanOut _ _ _ _ => True
  | _ => False

theorem Frame.IsFanOut.isSink {frame : Frame M E K H} (h : frame.IsFanOut) : frame.IsSink := by
  cases frame <;> first | exact h.elim | trivial

/-- How far a call has come that owes reports and nothing else. -/
inductive OnlyReports (p t : Nat) (below : List (Frame M E K H)) (answer : Reply M K) :
    Thread M E K H → Prop
  | about {control : Control M E K H} {todo : List (Act M E K)} : control.IsReporting →
      (∀ act ∈ todo, act.IsReport) →
      OnlyReports p t below answer ⟨t, control, .acts p todo answer :: below⟩
  | telling {control : Control M E K H} {above : List (Frame M E K H)} {frame : Frame M E K H}
      {todo : List (Act M E K)} : frame.IsSink → (∀ act ∈ todo, act.IsReport) →
      OnlyReports p t below answer ⟨t, control, above ++ frame :: .acts p todo answer :: below⟩
  | answered : OnlyReports p t below answer ⟨t, .resume answer, below⟩

namespace OnlyReports
variable {answer : Reply M K} {todo : List (Act M E K)}

theorem top {frame : Frame M E K H} (hf : frame.IsSink) (htodo : ∀ act ∈ todo, act.IsReport) :
    OnlyReports p t below answer ⟨t, control, frame :: .acts p todo answer :: below⟩ := by
  have h : OnlyReports p t below answer
      ⟨t, control, [] ++ frame :: .acts p todo answer :: below⟩ := .telling hf htodo
  exact h

theorem stride_about (hstride : Stride client w t control (.acts p todo answer :: below) m)
    (hc : control.IsReporting) (htodo : ∀ act ∈ todo, act.IsReport) :
    OnlyReports p t below answer ⟨t, m.control, m.stack⟩ := by
  cases hstride with
  | @acts act _ _ next _ hleads =>
    refine .about ?_ htodo
    cases act with
    | report =>
      obtain rfl : next = _ := hleads
      trivial
    | _ => exact hc.elim
  | tells => exact top trivial htodo
  | records => exact .about trivial htodo
  | fansOut hf => exact top hf.isSink htodo
  | handsOn _ _ hf => exact hf.elim
  | fansOn _ _ _ hf => exact hf.elim
  | pops _ _ _ hplain => exact hplain.elim
  | settles => exact .answered
  | proceeds =>
    refine .about (htodo _ List.mem_cons_self) ?_
    intro act hact
    exact htodo act (List.mem_cons_of_mem _ hact)
  | _ => exact hc.elim

/-- A sink that returns normally leaves nothing behind. -/
theorem stride_sink {frame : Frame M E K H}
    (hstride : Stride client w t control (frame :: .acts p todo answer :: below) m) (hf : frame.IsSink)
    (htodo : ∀ act ∈ todo, act.IsReport) (hreturn : control.IsReturn)
    (hs : (⟨t, control, frame :: .acts p todo answer :: below⟩ : Thread M E K H).sinkPanics = false) :
    OnlyReports p t below answer ⟨t, m.control, m.stack⟩ := by
  cases hstride with
  | goesOn => exact hf.elim
  | handsOn _ _ _ hf' => exact top hf'.isSink htodo
  | fansOn frames _ _ _ hframes =>
    rcases List.eq_nil_or_concat frames with rfl | ⟨above, last, rfl⟩
    · exact .about trivial htodo
    · rw [List.concat_eq_append, List.append_assoc]
      exact .telling (hframes last (by simp)).isSink htodo
  | runsOn => exact hf.elim
  | closes => exact hf.elim
  | pops => exact .about trivial htodo
  | unwinds _ _ hnot =>
    cases frame with
    | fanOut => exact absurd trivial hnot
    | receiving => cases hs
    | _ => exact hf.elim
  | settles => exact hf.elim
  | proceeds => exact hf.elim
  | gives => exact hf.elim
  | advances => exact hf.elim
  | drops => exact hf.elim
  | retires => exact hf.elim
  | leaves => exact hf.elim
  | catches => exact hf.elim
  | _ => exact hreturn.elim

theorem stride (h : OnlyReports p t below answer ⟨t, control, stack⟩)
    (hback : ¬(stack = below ∧ control.IsReturn))
    (hs : (⟨t, control, stack⟩ : Thread M E K H).sinkPanics = false) (hstacked : Stacked stack)
    (hstride : Stride client w t control stack m) : OnlyReports p t below answer ⟨t, m.control, m.stack⟩ := by
  cases h with
  | about hc htodo => exact stride_about hstride hc htodo
  | @telling _ above frame todo hf htodo =>
    obtain ⟨gone, come, rest, shape⟩ := hstride.shape hstacked.seated
    rcases shape.popped with rfl | ⟨hreturn, top, rfl⟩
    · obtain rfl : _ = rest := shape.before
      rw [shape.after, ← List.append_assoc]
      exact .telling hf htodo
    · cases above with
      | nil => exact stride_sink hstride hf htodo hreturn hs
      | cons first above =>
        obtain ⟨rfl, rfl⟩ := List.cons.inj shape.before
        rw [shape.after, List.append_eq, ← List.append_assoc]
        exact .telling hf htodo
  | answered => exact absurd ⟨rfl, trivial⟩ hback

end OnlyReports

/-- A call that owes reports only comes back with its answer. -/
theorem Call.reporting {all : List (Act M E K)} {answer : Reply M K}
    (call : Call client t below op start during w) (hw : start.Sound) (hr : SinksReturn during)
    (hall : ∀ act ∈ all, act.IsReport)
    (hfirst : ∀ m, start.perform client t below op = some m → ∃ v, m = .acts v below p all answer)
    (hback : w.IsBack t below) : w.thread? t = some ⟨t, .resume answer, below⟩ := by
  have hholds : ∃ thread, w.thread? t = some thread ∧ OnlyReports p t below answer thread := by
    refine call.invariant hw hr (fun _ => OnlyReports p t below answer) ?_ ?_ ?_ ?_
    · intro m hm
      obtain ⟨v, rfl⟩ := hfirst m hm
      exact .about trivial hall
    · intro _ v control stack m hreporting hback hd hs hstride
      exact hreporting.stride hback hs hd.stacked hstride
    · intro _ _ _ hreporting _
      exact hreporting
    · rintro _ _ (_ | _ | _) hback
      · simp
      · simp
      · exact absurd ⟨rfl, trivial⟩ hback
  obtain ⟨thread, hthread, hreporting⟩ := hholds
  cases hreporting with
  | about => exact absurd hthread (hback.not_above [])
  | @telling _ above frame todo =>
    rw [← List.singleton_append, ← List.append_assoc] at hthread
    exact absurd hthread (hback.not_above (above ++ [frame]))
  | answered => exact hthread

/-- A call that is answered at once is back. -/
theorem Call.answered {v : World M E K H} {reply : Reply M K}
    (call : Call client t below op start during w) (hw : start.Sound) (hr : SinksReturn during)
    (hfirst : start.perform client t below op = some (.answer v below reply)) :
    w.thread? t = some ⟨t, .resume reply, below⟩ := by
  have hholds : ∃ thread, w.thread? t = some thread ∧ thread = ⟨t, .resume reply, below⟩ := by
    refine call.invariant hw hr (fun _ thread => thread = ⟨t, .resume reply, below⟩) ?_ ?_ ?_ ?_
    · intro m hm
      cases hfirst.symm.trans hm
      rfl
    · rintro _ v control stack m ⟨⟩ hback
      exact absurd ⟨rfl, trivial⟩ hback
    · intro _ _ _ h _
      exact h
    · rintro _ _ rfl hback
      exact absurd ⟨rfl, trivial⟩ hback
  obtain ⟨thread, hthread, rfl⟩ := hholds
  exact hthread

/-- What the call does itself for a callback that it does not guard: a registration that comes too late, and a
notice that need not wait. -/
def Point.unguarded (p : Nat) (point : Point M E K) : Op M E K → List (Act M E K)
  | .register _ _ code =>
    if point.phase.isEnded then [point.report p .lateRegistration none, .present code .tombstone] else []
  | .atEnd _ notice => if point.phase.hasInterest then [] else point.owed p notice
  | _ => []

section
variable {point : Point M E K} (hp : w.points[p]? = some point) (hop : op.waitsFor? = some p)
  (hm : w.perform client t below op = some m)
include hp hop hm

/-- A call that runs no callback unguarded is answered, or serves the point, or owes reports only. -/
theorem World.perform_guarded (hnone : point.unguarded p op = []) :
    (∃ v reply, m = .answer v below reply) ∨ m.stack = .serving p :: below ∨
      ∃ v todo answer, m = .acts v below p todo answer ∧ ∀ act ∈ todo, act.IsReport := by
  have reports (kind : Kind) (reason : Option String) :
      ∀ act ∈ [point.report p kind reason], act.IsReport := by
    simp [Point.report, Act.IsReport]
  cases op with
  | register q interest code =>
    cases hop
    have hopen : ¬point.phase.isEnded := by
      intro hended
      simp [Point.unguarded, hended] at hnone
    simp only [perform, hp, register, if_neg hopen] at hm
    split at hm
    · cases hm
    · cases hm
      exact .inr (.inr ⟨_, _, _, rfl, reports _ _⟩)
    · cases hm
      exact .inl ⟨_, _, rfl⟩
  | unregister handle =>
    have hhandle : handle.point = some p := hop
    simp only [perform, hhandle, hp, unregister] at hm
    repeat' split at hm
    all_goals cases hm
    · exact .inl ⟨_, _, rfl⟩
    · exact .inl ⟨_, _, rfl⟩
    · exact .inr (.inl rfl)
    · exact .inl ⟨_, _, rfl⟩
  | atEnd q notice =>
    cases hop
    have hinterest : point.phase.hasInterest := by
      by_contra hnot
      simp [Point.unguarded, hnot, Point.owed] at hnone
    have hopen : ¬point.phase.isEnded := by
      cases hphase : point.phase <;> simp_all [Phase.isEnded, Phase.hasInterest]
    simp only [perform, hp, atEnd, if_neg hopen, if_pos hinterest] at hm
    split at hm
    · cases hm
    · cases hm
      exact .inl ⟨_, _, rfl⟩
    · cases hm
      exact .inl ⟨_, _, rfl⟩
  | push q event =>
    cases hop
    simp only [perform, hp, push] at hm
    repeat' split at hm
    all_goals cases hm
    · exact .inl ⟨_, _, rfl⟩
    · exact .inr (.inr ⟨_, _, _, rfl, reports _ _⟩)
    · exact .inr (.inl rfl)
  | _ => cases hop

theorem World.perform_unguarded (hsome : point.unguarded p op ≠ []) :
    (∃ v answer, m = .acts v below p (point.unguarded p op) answer) ∧
      ∀ act ∈ point.unguarded p op, act.IsDue := by
  cases op with
  | register q interest code =>
    cases hop
    have hended : point.phase.isEnded := by
      by_contra hnot
      simp [Point.unguarded, hnot] at hsome
    have hall : point.unguarded p (.register p interest code) =
        [point.report p .lateRegistration none, .present code .tombstone] := if_pos hended
    rw [hall]
    cases (perform_register_late hp hended interest code).symm.trans hm
    exact ⟨⟨_, _, rfl⟩, by simp [Point.report, Act.IsDue]⟩
  | atEnd q notice =>
    cases hop
    have hinterest : ¬point.phase.hasInterest := by
      intro hinterest
      simp [Point.unguarded, hinterest] at hsome
    have hall : point.unguarded p (.atEnd p notice) = point.owed p notice := if_neg hinterest
    rw [hall]
    obtain ⟨v, rfl⟩ := perform_atEnd_given hp hinterest hm
    exact ⟨⟨v, .done, rfl⟩, point.owed_isDue p notice⟩
  | _ => exact absurd rfl hsome

end

/-- A call on a point comes back with a reply, whatever callbacks panic that it has run, unless it runs one
unguarded: then it has run that one once, and may come back with its panic and with no other. -/
theorem Call.comes_back {point : Point M E K} (call : Call client t below op start during w)
    (hw : start.Sound) (hr : SinksReturn during) (hp : start.points[p]? = some point)
    (hop : op.waitsFor? = some p) (hback : w.IsBack t below) :
    (∃ reply, w.thread? t = some ⟨t, .resume reply, below⟩) ∨
      point.unguarded p op ≠ [] ∧ ownActs p t below during = point.unguarded p op ∧
        ∃ payload world answer, w.thread? t = some ⟨t, .unwind payload, below⟩ ∧
          ⟨world, ⟨t, .unwind payload, .acts p [] answer :: below⟩⟩ ∈ during := by
  obtain ⟨_, _, ht, hstep, -, -⟩ := call.first
  obtain ⟨m, hm, -⟩ := World.thread?_of_step hw.orderly ht hstep
  have hm : start.perform client t below op = some m := hm
  by_cases hnone : point.unguarded p op = []
  · left
    rcases World.perform_guarded hp hop hm hnone with
      ⟨v, reply, rfl⟩ | hserves | ⟨v, todo, answer, rfl, htodo⟩
    · exact ⟨reply, call.answered hw hr hm⟩
    · have hfirst : ∀ m', start.perform client t below op = some m' → m'.stack = .serving p :: below := by
        intro m' hm'
        cases hm.symm.trans hm'
        exact hserves
      rcases call.serving hw hr hfirst with hreply | ⟨control, above, habove⟩
      · exact ⟨.done, hreply⟩
      · exact absurd habove (hback.not_above above)
    · have hfirst : ∀ m', start.perform client t below op = some m' →
          ∃ v, m' = .acts v below p todo answer :=
        fun m' hm' => ⟨v, (Option.some.inj (hm.symm.trans hm')).symm⟩
      exact ⟨answer, call.reporting hw hr htodo hfirst hback⟩
  · obtain ⟨⟨v, answer, rfl⟩, hdue⟩ := World.perform_unguarded hp hop hm hnone
    have hfirst : ∀ m', start.perform client t below op = some m' →
        ∃ v, m' = .acts v below p (point.unguarded p op) answer := fun m' hm' =>
      ⟨v, (Option.some.inj (hm.symm.trans hm')).symm⟩
    rcases call.owing hw hr hdue hfirst with
      ⟨control, above, todo, habove, -⟩ | hreply | ⟨payload, world, hpanic, hmem⟩
    · exact absurd habove (hback.not_above above)
    · exact .inl ⟨answer, hreply⟩
    · exact .inr ⟨hnone, call.ownActs_eq hw hr hdue hfirst hback, payload, world, answer, hpanic, hmem⟩

/-- Panics of callbacks that a point calls in their turn, be it in a pass, after the end or after a
registration is taken back, stay within the point: on each thread they are reported one by one, each once and
with its text; the entry leaves the list and has no other turn; and the call that has run the callback comes
back with a reply. Only a registration that comes too late and a notice that need not wait are given by the
call itself, once and unguarded, and nothing but the panic of that callback comes back with such a call. -/
theorem callback_panics_stay_within_turns (run : Run client (.initial host) trail w)
    (hr : SinksReturn trail) (p : Nat) :
    Enacted client p trail ∧
    (∀ t, callbackPanics p (trail.filter (·.thread.id = t)) =
      panicReports p (trail.filter (·.thread.id = t)) ++ (w.panicReport? p t).toList) ∧
    (∀ first m later payload stack, trail = first ++ m :: later →
      m.thread.control = .unwind payload → m.thread.stack = .delivering p :: stack →
      (stack.head? = some (.serving p) ∧ ∃ point, m.world.points[p]? = some point ∧
        ∀ next, later.find? (·.thread.id = m.thread.id) = some next → next.thread =
          ⟨m.thread.id, .act (point.report p .observerPanicked (some payload.info)), stack⟩) ∧
      ∃ entry event, (m.world.phase p).due = some (entry, event) ∧
        m.happenings p = [.left entry false] ∧
        ∀ k, entry.goesBy k → (history p later).filter (Happening.turns k) = []) ∧
    ∀ point, w.points[p]? = some point → ∀ t below op during w', op.waitsFor? = some p →
      Call client t below op w during w' → SinksReturn during → w'.IsBack t below →
      Enacted client p during ∧ ((∃ reply, w'.thread? t = some ⟨t, .resume reply, below⟩) ∨
        point.unguarded p op ≠ [] ∧ ownActs p t below during = point.unguarded p op ∧
          ∃ payload world answer, w'.thread? t = some ⟨t, .unwind payload, below⟩ ∧
            ⟨world, ⟨t, .unwind payload, .acts p [] answer :: below⟩⟩ ∈ during) := by
  refine ⟨run.enacted hr p, run.panics_are_reported hr p, ?_, ?_⟩
  · intro first m later payload stack heq hcontrol htop
    exact ⟨run.panic_is_reported hr heq hcontrol htop, run.panic_is_last_turn hr heq hcontrol htop⟩
  · intro point hp t below op during w' hop call hr' hback
    exact ⟨run.enacted_later call.run hr hr' p,
      call.comes_back (run.sound (World.initial_sound host) hr) hr' hp hop hback⟩

/-- A client of which all callbacks panic that are not steady, and all of whose sinks return. -/
def jumpyClient : Client Unit Unit Bool Unit :=
  { startledClient with routine := fun steady => if steady then .ret () else .panic (.text "notice") }

/-- In a final pass an observer panics and then a notice. -/
theorem callback_panics_stay_within_turns_jumpy :
    let calls := World.runCalls jumpyClient () [.create "request" .recorder,
      .register 0 .active false, .atEnd 0 (.run false), .push 0 (.ofResponse () true)] 100
    panicReports 0 calls.1 = [.report .recorder .observerPanicked (some "rendezvous#0") (some "unknown panic"),
        .report .recorder .observerPanicked (some "rendezvous#0") (some "notice")] ∧
      callbackPanics 0 calls.1 = panicReports 0 calls.1 ∧
      calls.2.thread? 0 = some ⟨0, .resume .done, []⟩ := by
  intro calls
  have run : Run jumpyClient (.initial ()) calls.1 calls.2 := World.run_runCalls _ _ _ _
  have hall : calls.1.filter (·.thread.id = 0) = calls.1 :=
    List.filter_eq_self.mpr (by decide)
  obtain ⟨-, hpanics, -⟩ := callback_panics_stay_within_turns run (by decide) 0
  have hreports := hpanics 0
  rw [hall] at hreports
  refine ⟨rfl, ?_, rfl⟩
  rw [hreports]
  exact List.append_nil _

/-- The panics of callbacks that calls run unguarded reach the callers: of a notice when there is no
interest, of an observer that comes too late, and of a notice that does. -/
theorem unguarded_panics_reach_callers :
    let calls (ops : List (Op Unit Unit Bool)) := World.runCalls jumpyClient ()
      (.create "request" .recorder :: ops) 100
    let last : List (Op Unit Unit Bool) := [.register 0 .active true, .push 0 (.ofResponse () true)]
    (calls [.atEnd 0 (.run false)]).2.thread? 0 = some ⟨0, .unwind (.text "notice"), []⟩ ∧
      (calls (last ++ [.register 0 .active false])).2.thread? 0 = some ⟨0, .unwind .other, []⟩ ∧
      (calls (last ++ [.atEnd 0 (.run false)])).2.thread? 0 =
        some ⟨0, .unwind (.text "notice"), []⟩ :=
  ⟨rfl, rfl, rfl⟩

end Exchange
