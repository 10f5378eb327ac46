import Exchange.Proofs.Escape
import Exchange.Proofs.FanOut
import Exchange.Proofs.HandOver
import Exchange.Proofs.OpenPoint
import Exchange.Proofs.Panics
import Exchange.Proofs.PushOrder

/-!
Answers: the final response that a binding pushes on behalf of a producer that has failed. The push finds
its point open or ended. An open point it ends, with one last pass for all on the list; on a point that has
ended it does nothing but report that it comes too late.
-/

namespace Exchange
set_option autoImplicit false

variable {M E K H : Type} {client : Client M E K H} {u v w x : World M E K H} {p t n : Nat}
  {thread : Thread M E K H}
variable {trail during : List (Moment M E K H)} {below stack : List (Frame M E K H)} {op : Op M E K}
variable {task : Task K} {outcome : Outcome} {event : Event M E} {entries : List (Entry K)}

/-! ## Calls along a run -/

/-- A thread that is in the middle of something stays as it is until it takes a step. -/
theorem Run.waits_or_steps (run : Run client u trail w) (hu : u.Sound) (hs : SinksReturn trail)
    (ht : u.thread? n = some thread) (hstack : thread.stack ≠ []) :
    w.thread? n = some thread ∨ ∃ first v second, trail = first ++ ⟨v, thread⟩ :: second := by
  induction run with
  | refl => exact .inl ht
  | @step trail w w' n' other before hother hstep ih =>
    obtain ⟨hs, -⟩ := sinksReturn_append.mp hs
    rcases ih hs with hwaits | ⟨first, v, second, rfl⟩
    · by_cases hne : n' = n
      · subst hne
        cases hother.symm.trans hwaits
        exact .inr ⟨trail, w, [], rfl⟩
      · obtain ⟨⟨m, -, stepped⟩, ho⟩ :=
          World.step_stepped (before.sound hu hs).orderly hother hstep
        exact .inl (stepped.keeps ho hwaits (Ne.symm hne) hstack)
    · exact .inr ⟨first, v, second ++ [⟨w, other⟩], by simp⟩
  | between before hb ih =>
    rcases ih hs with hwaits | hsteps
    · obtain ⟨hinterlude, ho⟩ := World.between_interlude (before.sound hu hs).orderly hb
      exact .inl (World.keeps_of_interlude hinterlude ho hwaits hstack)
    · exact .inr hsteps

/-- A call that is made in a run is back at some moment, or still under way in the end. -/
theorem Call.of_run (ht : u.thread? n = some ⟨n, .perform op, below⟩) (hstep : u.step client n = some v)
    (run : Run client v trail w) :
    ∃ during later x, ⟨u, ⟨n, .perform op, below⟩⟩ :: trail = during ++ later ∧
      Call client n below op u during x ∧ Run client x later w ∧
      (x.IsBack n below ∨ later = [] ∧ x = w) := by
  induction run with
  | refl => exact ⟨_, [], v, rfl, .made ht hstep, .refl, .inr ⟨rfl, rfl⟩⟩
  | @step trail w w' n' thread _ hthread hs ih =>
    obtain ⟨during, later, x, heq, call, hlater, hend⟩ := ih
    by_cases hback : x.IsBack n below
    · refine ⟨during, later ++ [⟨w, thread⟩], x, ?_, call, hlater.step hthread hs, .inl hback⟩
      rw [← List.append_assoc, ← heq, List.cons_append]
    · obtain ⟨rfl, rfl⟩ := hend.resolve_left hback
      refine ⟨during ++ [⟨x, thread⟩], [], w', ?_, call.step hback hthread hs, .refl,
        .inr ⟨rfl, rfl⟩⟩
      rw [List.append_nil] at heq ⊢
      rw [← heq, List.cons_append]
  | between _ hb ih =>
    obtain ⟨during, later, x, heq, call, hlater, hend⟩ := ih
    by_cases hback : x.IsBack n below
    · exact ⟨during, later, x, heq, call, hlater.between hb, .inl hback⟩
    · obtain ⟨rfl, rfl⟩ := hend.resolve_left hback
      exact ⟨during, [], _, heq, call.between hback hb, .refl, .inr ⟨rfl, rfl⟩⟩

/-- Until a call is back, what it does stands above the frames below. -/
theorem Call.above (call : Call client n below op u during x) (hu : u.Sound)
    (hs : SinksReturn during) (hbelow : below ≠ []) :
    ∃ control above, x.thread? n = some ⟨n, control, above ++ below⟩ := by
  induction call with
  | made ht hstep =>
    obtain ⟨⟨m, hm, stepped⟩, ho⟩ := World.step_stepped hu.orderly ht hstep
    obtain ⟨gone, come, rest, shape⟩ :=
      stepped.stride.shape (hu.disciplined _ (World.mem_of_thread? ht)).stacked.seated
    obtain rfl : gone = [] := shape.popped.resolve_right fun h => h.1
    obtain rfl : below = rest := shape.before
    exact ⟨m.control, come, shape.after ▸ ho.thread?_eq stepped.succession.mem_after⟩
  | @step during w w' n' thread call hback hthread hstep ih =>
    obtain ⟨hs, -⟩ := sinksReturn_append.mp hs
    obtain ⟨control, above, hcaller⟩ := ih hs
    have hsound := call.run.sound hu hs
    obtain ⟨⟨m, hm, stepped⟩, ho⟩ := World.step_stepped hsound.orderly hthread hstep
    by_cases hne : n' = n
    · subst hne
      cases hthread.symm.trans hcaller
      have hafter := ho.thread?_eq stepped.succession.mem_after
      obtain ⟨gone, come, rest, shape⟩ :=
        stepped.stride.shape (hsound.disciplined _ (World.mem_of_thread? hthread)).stacked.seated
      rcases shape.popped with rfl | ⟨hreturn, frame, rfl⟩
      · obtain rfl : above ++ below = rest := shape.before
        exact ⟨m.control, come ++ above, by rw [hafter, shape.after, List.append_assoc]⟩
      · cases above with
        | nil => exact absurd ⟨control, hcaller, hreturn⟩ hback
        | cons top above =>
          obtain ⟨-, rfl⟩ := List.cons.inj shape.before
          refine ⟨m.control, come ++ above, ?_⟩
          rw [hafter, shape.after, List.append_assoc]
          rfl
    · refine ⟨control, above, stepped.keeps ho hcaller (Ne.symm hne) ?_⟩
      simp [hbelow]
  | between call hback hb ih =>
    obtain ⟨control, above, hcaller⟩ := ih hs
    obtain ⟨hinterlude, ho⟩ := World.between_interlude (call.run.sound hu hs).orderly hb
    refine ⟨control, above, World.keeps_of_interlude hinterlude ho hcaller ?_⟩
    simp [hbelow]

/-- A call begins with the step that makes it. -/
theorem Call.first (call : Call client n below op u during x) :
    ∃ v rest, u.thread? n = some ⟨n, .perform op, below⟩ ∧ u.step client n = some v ∧
      during = ⟨u, ⟨n, .perform op, below⟩⟩ :: rest ∧ Run client v rest x := by
  induction call with
  | made ht hstep => exact ⟨_, [], ht, hstep, rfl, .refl⟩
  | step _ _ hthread hs ih =>
    obtain ⟨v, rest, ht, hstep, rfl, run⟩ := ih
    exact ⟨v, _, ht, hstep, rfl, run.step hthread hs⟩
  | between _ _ hb ih =>
    obtain ⟨v, rest, ht, hstep, rfl, run⟩ := ih
    exact ⟨v, rest, ht, hstep, rfl, run.between hb⟩

/-- A call that is made in a run and comes back: what is before it, the call, and what is after. -/
structure Call.Within (client : Client M E K H) (n : Nat) (below : List (Frame M E K H))
    (op : Op M E K) (start : World M E K H) (trail : List (Moment M E K H)) (last : World M E K H)
    (first during later : List (Moment M E K H)) (v x : World M E K H) : Prop where
  trail_eq : trail = first ++ (during ++ later)
  before : Run client start first v
  call : Call client n below op v during x
  back : x.IsBack n below
  after : Run client x later last

/-! ## Pushes that end a point -/

theorem SinksReturn.breaks_no_pass (hs : SinksReturn trail) : ∀ m ∈ trail, m.breaksPass p = false := by
  intro m hm
  have hreturns := hs m hm
  unfold Moment.breaksPass
  split
  · rename_i hthread
    rw [hthread] at hreturns
    cases hreturns
  · rfl

/-- Whoever is not in the middle of serving a point is not inside its pass. -/
theorem Run.outside {host : H} (run : Run client (.initial host) trail w) (hs : SinksReturn trail)
    (ht : w.thread? n = some thread) (hserves : .serving p ∉ thread.stack) :
    ∀ pass, w.phase p ≠ .dispatching n pass := by
  intro pass hpass
  have hmanned := run.manned (World.initial_manned host p) hs.breaks_no_pass
  obtain ⟨server, hserver, hid, hserving⟩ := hmanned.owned n pass hpass
  obtain rfl := hmanned.orderly.eq_of_id_eq hserver (World.mem_of_thread? ht)
    (hid.trans (World.id_of_thread? ht).symm)
  exact hserves hserving

/-- The pass of a final event. -/
def Phase.isLastPass (owner : Nat) : Phase M E K → Prop
  | .dispatching n pass => n = owner ∧ pass.event.isLast
  | _ => False

section
variable {s s' : Standing M E K} {happenings history : List (Happening M E K)}

/-- No pass follows that of a final event. -/
theorem Change.last_pass (h : Change s happenings s') (hp : s.phase.isLastPass n) :
    rounds happenings = [] ∧ (s'.phase.isLastPass n ∨ s'.phase.isEnded) := by
  cases h with
  | rests => exact ⟨rfl, .inl hp⟩
  | aside ha =>
    refine ⟨?_, .inl hp⟩
    rcases ha.eq with ⟨_, _, rfl⟩ | ⟨_, _, rfl⟩ | ⟨_, _, _, rfl⟩ | ⟨_, _, rfl⟩ <;> rfl
  | awaitsInside => exact ⟨rfl, .inl hp⟩
  | unregistersInside => exact ⟨rfl, .inl hp⟩
  | pushesInside => exact ⟨rfl, .inl hp⟩
  | calls => exact ⟨rfl, .inl hp⟩
  | @gives _ _ _ entry => exact ⟨by cases entry <;> rfl, .inl hp⟩
  | @skips phase =>
    cases phase with
    | dispatching owner pass => exact ⟨rfl, .inl ⟨hp.1, (pass.event_advance true).symm ▸ hp.2⟩⟩
    | _ => exact hp.elim
  | @leaves phase =>
    cases phase with
    | dispatching owner pass => exact ⟨rfl, .inl ⟨hp.1, (pass.event_advance _).symm ▸ hp.2⟩⟩
    | _ => exact hp.elim
  | reopens _ hcommit => exact absurd hp.2 (Pass.commit_listening hcommit).1
  | goesOn _ hcommit => exact absurd hp.2 (Pass.commit_dispatching hcommit).1
  | ends => exact ⟨rfl, .inr rfl⟩
  | _ => exact hp.elim

theorem Course.rounds_eq_nil (h : Course s history s') (hended : s.phase.isEnded) :
    s'.phase.isEnded ∧ rounds history = [] := by
  obtain ⟨hended', hnone⟩ := h.passEvents_eq_nil hended
  rw [passEvents_eq] at hnone
  exact ⟨hended', List.map_eq_nil_iff.mp hnone⟩

theorem Course.last_pass (h : Course s history s') (hp : s.phase.isLastPass n) :
    rounds history = [] ∧ (s'.phase.isLastPass n ∨ s'.phase.isEnded) := by
  induction h with
  | refl => exact ⟨rfl, .inl hp⟩
  | step _ hchange ih =>
    obtain ⟨hnone, hlast | hended⟩ := ih
    · obtain ⟨hnone', hphase⟩ := hchange.last_pass hlast
      exact ⟨by rw [rounds_append, hnone, hnone', List.append_nil], hphase⟩
    · obtain ⟨hended', hnone'⟩ := (Course.refl.step hchange).rounds_eq_nil hended
      rw [List.nil_append] at hnone'
      exact ⟨by rw [rounds_append, hnone, hnone', List.append_nil], .inr hended'⟩

/-- What the passes of a point have run between two moments at which none is open. -/
theorem Course.passCalls_between {early late : List (Happening M E K)} (h : Course .initial early s)
    (hlate : Course s late s') (hs : s.remainder = []) (hs' : s'.remainder = []) :
    passCalls late = (rounds late).flatMap fanOut := by
  have hbefore := h.passCalls_eq
  have hafter := (h.trans hlate).passCalls_eq
  rw [hs, List.append_nil] at hbefore
  rw [hs', List.append_nil, rounds_append, List.flatMap_append, passCalls, List.filter_append] at hafter
  exact List.append_cancel_left (hafter.trans (by rw [← hbefore]; rfl))

theorem Standing.remainder_of_listening (h : s.phase = .listening entries) : s.remainder = [] := by
  simp [remainder, h]

theorem Standing.remainder_of_isEnded (h : s.phase.isEnded) : s.remainder = [] := by
  unfold remainder
  split
  · rename_i hopen
    rw [hopen] at h
    cases h
  · rfl

/-- Everybody who has a turn in such a pass or after it is told of the end. -/
theorem Course.tells_of_turns {early late : List (Happening M E K)}
    (h : Course .initial (early ++ late) s) (hfinal : event.isLast)
    (hcalls : passCalls late = fanOut (event, entries)) {id : Nat} {happening : Happening M E K}
    (hmem : happening ∈ late) (hturns : happening.turns (.observer id)) :
    happening.tells (.observer id) := by
  cases happening with
  | presented id' code event' occasion =>
    have hcall : occasion ≠ .call ∧ id' = id := by simpa [Happening.turns] using hturns
    obtain ⟨before, after, heq⟩ := List.append_of_mem (List.mem_append_right early hmem)
    suffices hlast : event'.isLast by simp [Happening.tells, hcall, hlast]
    rcases h.presented_in_turn heq hcall.1 with ⟨rfl, -⟩ | rfl
    · have hin : (.presented id' code event' .pass : Happening M E K) ∈ fanOut (event, entries) := by
        rw [← hcalls]
        exact List.mem_filter.mpr ⟨hmem, rfl⟩
      obtain ⟨entry, -, hgiven⟩ := List.mem_map.mp hin
      cases entry with
      | observer =>
        cases hgiven
        exact hfinal
      | ending => cases hgiven
    · rfl
  | notified => simp [Happening.turns] at hturns
  | _ => cases hturns

/-- An observer on the list of a final pass has one turn from then on, in that pass. -/
theorem Course.one_turn {early late : List (Happening M E K)}
    (h : Course .initial (early ++ late) s) (hfinal : event.isLast)
    (hcalls : passCalls late = fanOut (event, entries)) {id : Nat} {interest : Interest} {code : K}
    (hentry : .observer id interest code ∈ entries) :
    late.filter (Happening.turns (.observer id)) = [.presented id code event .pass] := by
  have hgiven : .presented id code event .pass ∈ late := by
    have hin : .presented id code event .pass ∈ passCalls late := by
      rw [hcalls]
      exact List.mem_map.mpr ⟨_, List.mem_filter.mpr ⟨hentry, rfl⟩, rfl⟩
    exact (List.mem_filter.mp hin).1
  have hsame : late.filter (Happening.turns (.observer id)) =
      late.filter (Happening.tells (.observer id)) := by
    apply List.filter_congr
    intro happening hmem
    rw [Bool.eq_iff_iff]
    exact ⟨h.tells_of_turns hfinal hcalls hmem, Happening.turns_of_tells⟩
  rw [hsame]
  refine filter_eq_singleton ?_ hgiven (by simp [Happening.tells, hfinal])
  have hone := h.tallied.told_once (.observer id)
  rw [told_append] at hone
  exact Nat.le_trans (Nat.le_add_left _ _) hone

end

section
variable {host : H} {first later : List (Moment M E K H)} {point : Point M E K}
variable (within : Call.Within client n below (.push p event) (.initial host) trail w first during later v x)
variable (hs : SinksReturn trail) (hserves : .serving p ∉ below)
variable (hp : v.points[p]? = some point)
include within hs

theorem Call.Within.sinksReturn : SinksReturn first ∧ SinksReturn during ∧ SinksReturn later := by
  rw [within.trail_eq] at hs
  obtain ⟨hfirst, hrest⟩ := sinksReturn_append.mp hs
  exact ⟨hfirst, sinksReturn_append.mp hrest⟩

include hp

/-- A push that comes too late does nothing but report it. -/
theorem Call.Within.push_late (hended : point.phase.isEnded) :
    rounds (history p during) = [] ∧
      ownActs p n below during = [point.report p .lateEvent (some event.lateName)] ∧
      (w.phase p).isEnded := by
  obtain ⟨hfirst, hduring, hlater⟩ := within.sinksReturn hs
  have hv := within.before.sound (World.initial_sound host) hfirst
  obtain ⟨s, course, stands⟩ := within.before.course_of_initial hfirst p
  have hphase : s.phase.isEnded := by rwa [stands.phase_eq, World.phase_eq hp]
  obtain ⟨s', course', stands'⟩ :=
    within.call.run.course hduring hv stands (course.coherent Standing.initial_coherent)
  obtain ⟨s'', course'', stands''⟩ := within.after.course hlater (within.call.run.sound hv hduring)
    stands' (course'.coherent (course.coherent Standing.initial_coherent))
  refine ⟨(course'.rounds_eq_nil hphase).2, ?_, ?_⟩
  · have hmakes (m : Move M E K H) (hm : v.perform client n below (.push p event) = some m) :
        ∃ v', m = .acts v' below p [point.report p .lateEvent (some event.lateName)] .done := by
      cases hopen : point.phase with
      | ended =>
        simp only [World.perform, World.push, hp, hopen, Phase.access, Phase.isEnded] at hm
        exact ⟨v, (Option.some.inj hm).symm⟩
      | _ => simp [hopen, Phase.isEnded] at hended
    exact within.call.ownActs_eq hv hduring (by simp [Point.report, Act.IsDue]) hmakes within.back
  · rw [← stands''.phase_eq]
    exact (course''.rounds_eq_nil (course'.rounds_eq_nil hphase).1).1

include hserves

theorem Call.Within.push_finds :
    (∃ entries, point.phase = .listening entries) ∨ point.phase.isEnded := by
  obtain ⟨hfirst, -, -⟩ := within.sinksReturn hs
  obtain ⟨_, _, ht, hstep, -, -⟩ := within.call.first
  cases hphase : point.phase with
  | listening entries => exact .inl ⟨entries, rfl⟩
  | ended farewell => exact .inr rfl
  | dispatching owner pass =>
    obtain ⟨m, hm, -⟩ := World.move_of_step ht hstep
    have hne : owner ≠ n := by
      rintro rfl
      exact within.before.outside hfirst ht hserves pass ((World.phase_eq hp).trans hphase)
    simp [World.move, World.perform, World.push, hp, hphase, Phase.access, hne] at hm

/-- A final push on an open point gives everybody on the list the event, in that order, and ends the
point; nobody of them has another turn. -/
theorem Call.Within.push_ends (hopen : point.phase = .listening entries) (hfinal : event.isLast) :
    passCalls (history p during) = fanOut (event, entries) ∧ (w.phase p).isEnded ∧
      ∀ id interest code, .observer id interest code ∈ entries →
        (history p (during ++ later)).filter (Happening.turns (.observer id)) =
          [.presented id code event .pass] := by
  obtain ⟨hfirst, hduring, hlater⟩ := within.sinksReturn hs
  have hv := within.before.sound (World.initial_sound host) hfirst
  obtain ⟨s, course, stands⟩ := within.before.course_of_initial hfirst p
  have hc := course.coherent Standing.initial_coherent
  -- the first step opens the pass
  obtain ⟨v', rest, ht, hstep, rfl, run⟩ := within.call.first
  obtain ⟨hone, hrest⟩ := sinksReturn_append.mp (List.singleton_append ▸ hduring)
  obtain ⟨opened, hchange, hopened⟩ := stands.of_step hv hc ht hstep
  have hhappenings : Moment.happenings p ⟨v, ⟨n, .perform (.push p event), below⟩⟩ =
      [.pushed event .taken, .begun event entries] := by
    simp [Moment.happenings, World.receives, hp, Op.waitsFor?, Point.receives, hopen]
  rw [hhappenings] at hchange
  have hlast : opened.phase.isLastPass n := by
    have hv' : v'.phase p = .dispatching n { event, waiting := entries } := by
      obtain ⟨m, hm, threads, rfl⟩ := World.move_of_step ht hstep
      simp only [World.move, World.perform, World.push, hp, hopen, Phase.access, Phase.isEnded,
        Phase.openPass] at hm
      cases hm
      exact World.phase_setPhase hp _
    rw [hopened.phase_eq, hv']
    exact ⟨rfl, hfinal⟩
  -- it is the last one, and it is over when the call is back
  obtain ⟨s', course', stands'⟩ :=
    run.course hrest (hv.of_step ht hstep (hone _ List.mem_cons_self)) hopened (hchange.coherent hc)
  obtain ⟨hnone, hphase⟩ := course'.last_pass hlast
  have hended : s'.phase.isEnded := by
    refine hphase.resolve_left ?_
    intro hopen'
    obtain ⟨control, hback, -⟩ := within.back
    cases hdispatching : s'.phase with
    | dispatching owner pass =>
      rw [hdispatching] at hopen'
      obtain ⟨rfl, -⟩ := hopen'
      exact (within.before.trans within.call.run).outside (sinksReturn_append.mpr ⟨hfirst, hduring⟩)
        hback hserves pass (stands'.phase_eq ▸ hdispatching)
    | _ =>
      rw [hdispatching] at hopen'
      exact hopen'
  have hhistory : history p (⟨v, ⟨n, .perform (.push p event), below⟩⟩ :: rest) =
      [.pushed event .taken, .begun event entries] ++ history p rest := by
    rw [history, List.flatMap_cons, hhappenings]
    rfl
  have whole := (Course.refl.step hchange).trans course'
  rw [List.nil_append, ← hhistory] at whole
  have hcalls := course.passCalls_between whole
    (Standing.remainder_of_listening (stands.phase_eq.trans ((World.phase_eq hp).trans hopen)))
    (Standing.remainder_of_isEnded hended)
  rw [hhistory, rounds_append, hnone] at hcalls
  have hcalls : passCalls (history p (⟨v, ⟨n, .perform (.push p event), below⟩⟩ :: rest)) =
      fanOut (event, entries) := by
    rw [hhistory, hcalls]
    simp [rounds, List.filterMap_cons]
  obtain ⟨s'', course'', stands''⟩ := within.after.course hlater (within.call.run.sound hv hduring)
    stands' (whole.coherent hc)
  obtain ⟨hended', hnone'⟩ := course''.rounds_eq_nil hended
  refine ⟨hcalls, stands''.phase_eq ▸ hended', ?_⟩
  intro id interest code hentry
  have hlate := (course.trans whole).passCalls_between course''
    (Standing.remainder_of_isEnded hended) (Standing.remainder_of_isEnded hended')
  have all := course.trans (whole.trans course'')
  rw [← history_append] at all
  refine all.one_turn hfinal ?_ hentry
  rw [history_append, passCalls, List.filter_append]
  change passCalls _ ++ passCalls _ = _
  rw [hcalls, hlate, hnone', List.flatMap_nil, List.append_nil]

end

/-! ## The push of a binding -/

/-- What the binding does by a call is followed by the call, once the turn is over. -/
theorem Run.binding_performs {host : H} (run : Run client (.initial host) trail w)
    (hs : SinksReturn trail) (hover : w.Unattended t) (hmem : .call op ∈ bindingActs t trail) :
    ∃ first v second p todo answer stage, trail = first ++ ⟨v, ⟨World.mainThread, .perform op,
      [.acts p todo answer, .turn t stage]⟩⟩ :: second := by
  obtain ⟨moment, hmoment, hact⟩ := List.mem_filterMap.mp hmem
  obtain ⟨first, second, rfl⟩ := List.append_of_mem hmoment
  obtain ⟨hfirst, hrest⟩ := sinksReturn_append.mp hs
  rw [← List.singleton_append, sinksReturn_append] at hrest
  obtain ⟨hone, hsecond⟩ := hrest
  obtain ⟨before, n, u, hthread, hstep, after⟩ := run.split rfl
  have hsettled := before.settled (World.initial_settled host) hfirst
  obtain ⟨world, id, control, stack⟩ := moment
  have hsaved := World.mem_of_thread? hthread
  obtain ⟨rfl, p, todo, answer, stage, rfl⟩ :=
    Moment.bindingAct?_some (hsettled.rooted.last _ hsaved) hact
  have hin : InTurn t ([.acts p todo answer, .turn t stage] : List (Frame M E K H)) :=
    ⟨stage, by simp⟩
  obtain rfl : id = n := World.id_of_thread? hthread
  obtain rfl : id = World.mainThread := hsettled.rooted.main _ hsaved t hin
  -- the act has led to the call, and the thread is not where it was then
  obtain ⟨m, hm, hcalling⟩ := World.thread?_of_step hsettled.orderly hthread hstep
  cases hm
  have hu : u.Sound := hsettled.toSound.of_step hthread hstep (hone _ List.mem_cons_self)
  rcases after.waits_or_steps hu hsecond hcalling (by simp [World.act]) with hwaits | hsteps
  · exact absurd hin (hover _ (World.mem_of_thread? hwaits))
  · obtain ⟨early, v, late, rfl⟩ := hsteps
    exact ⟨_, v, late, p, todo, answer, stage,
      (List.append_assoc first (_ :: early) (_ :: late)).symm⟩

/-- When a task is over, the calls of its binding have been made from its turn and are back. -/
theorem Run.binding_call {host : H} (run : Run client (.initial host) trail w) (hs : SinksReturn trail)
    (hover : w.Unattended t) (hmem : .call op ∈ bindingActs t trail) :
    ∃ first during later v x below, InTurn t below ∧ (∀ p, .serving p ∉ below) ∧
      Call.Within client World.mainThread below op (.initial host) trail w first during later v x := by
  obtain ⟨first, v, second, p, todo, answer, stage, rfl⟩ := run.binding_performs hs hover hmem
  obtain ⟨before, n, v', hmaking, hmade, after⟩ := run.split rfl
  obtain rfl : World.mainThread = n := World.id_of_thread? hmaking
  obtain ⟨during, later, x, heq, call, hlater, hend⟩ := Call.of_run hmaking hmade after
  refine ⟨first, during, later, v, x, _, ⟨stage, by simp⟩, by simp, heq ▸ rfl, before, call, ?_, hlater⟩
  -- were the call still under way, so would be the turn
  refine hend.resolve_right ?_
  rintro ⟨rfl, rfl⟩
  obtain ⟨hfirst, hduring⟩ := sinksReturn_append.mp hs
  rw [heq, List.append_nil] at hduring
  obtain ⟨control, above, hstands⟩ :=
    call.above (before.sound (World.initial_sound host) hfirst) hduring (by simp)
  exact hover _ (World.mem_of_thread? hstands) ⟨stage, by simp⟩

/-- The response that goes with an outcome: what the rendering has given, the timeout, or the internal
error. -/
def Outcome.Answers (client : Client M E K H) (findings : List (Finding M K)) (response : M) :
    Outcome → Prop
  | .rendered => .rendered (.ok (some response)) ∈ findings
  | .timedOut => response = client.timeout
  | .renderFailed | .failed | .panicked => response = client.internalError
  | .completed | .canceled => False

/-- A row that answers ends with the response, the only thing that it pushes. -/
theorem Settles.answers {found : List (Finding M K)} {acts : List (Act M E K)}
    (h : Settles client t task found outcome acts) (hanswered : outcome.answered) :
    ∃ reports response, outcome.Answers client found response ∧
      acts = reports ++ [task.answer response] ∧ ∀ act ∈ reports, act.pushed? = none := by
  cases h with
  | completed => cases hanswered
  | cancelled => cases hanswered
  | gaveUp => cases hanswered
  | rendered failure response =>
    refine ⟨[_], response, ?_, rfl, ?_⟩ <;>
      simp [Outcome.Answers, Task.announcement, Task.report, Act.pushed?]
  | renderFailed =>
    refine ⟨[_, _], _, rfl, rfl, ?_⟩
    simp [Task.announcement, Task.report, Act.pushed?]
  | failed =>
    refine ⟨[_], _, rfl, rfl, ?_⟩
    simp [Task.report, Act.pushed?]
  | panicked =>
    refine ⟨[_], _, rfl, rfl, ?_⟩
    simp [Task.report, Act.pushed?]
  | timedOut =>
    refine ⟨[_, _], _, rfl, rfl, ?_⟩
    simp [Task.report, Act.pushed?]

/-- The push of a binding that answers, in the run, and the point as the push finds it. -/
theorem Run.answer_call {host : H} (run : Run client (.initial host) trail w) (hs : SinksReturn trail)
    (he : ∀ m ∈ trail, m.escapes t = false) (hclosed : w.Closed t task outcome) {response : M}
    (hmem : task.answer response ∈ bindingActs t trail) :
    ∃ first during later v x below point, InTurn t below ∧ .serving task.point ∉ below ∧
      Call.Within client World.mainThread below (.push task.point (.ofResponse response true))
        (.initial host) trail w first during later v x ∧ v.points[task.point]? = some point := by
  obtain ⟨first, during, later, v, x, below, hin, hserves, within⟩ :=
    run.binding_call hs hclosed.unattended hmem
  obtain ⟨hfirst, hduring, hlater⟩ := within.sinksReturn hs
  refine ⟨first, during, later, v, x, below, ?_⟩
  -- the task is there when its binding pushes, and so is its point
  have hefirst : ∀ m ∈ first, m.escapes t = false := by
    intro m hm
    apply he
    rw [within.trail_eq]
    exact List.mem_append_left _ hm
  obtain ⟨_, _, hthread, -, -, -⟩ := within.call.first
  have unattended (hnone : v.Unattended t) : False :=
    hnone _ (World.mem_of_thread? hthread) hin
  have haccount := within.before.account hfirst hefirst
  generalize findings t first = found, bindingActs t first = acts at haccount
  cases haccount with
  | before _ hnone => exact (unattended hnone).elim
  | after _ _ _ hnone => exact (unattended hnone).elim
  | during htask =>
    obtain ⟨point, hp⟩ := within.before.grounded hfirst _ _ htask
    obtain ⟨task', ht', hlater'⟩ := (within.call.run.trans within.after).task_later htask
    cases ht'.symm.trans hclosed.get
    rw [← hlater'.point] at hp
    exact ⟨point, hin, hserves _, within, hp⟩

/-- A binding whose producer has completed does nothing. One that answers for its producer pushes one
final response, the one that goes with the outcome, and when the task is over the point has ended. (A panic
that has escaped is not answered.) If the
point is open when the response comes, everybody on the list is given the response in the order of
registration, and no observer has another turn; if it has ended, nothing is done but to report that the
response comes too late. To be given the response is to be run with it. -/
theorem failures_are_answered_once {host : H} (run : Run client (.initial host) trail w)
    (hs : SinksReturn trail) (ht : w.tasks[t]? = some task)
    (hover : task.state.outcome? = some outcome)
    (he : outcome = .panicked → ∀ m ∈ trail, m.escapes t = false) :
    (∀ p, Enacted client p trail) ∧
    (outcome = .completed → bindingActs t trail = []) ∧
    (outcome.answered → (w.phase task.point).isEnded ∧
      ∃ response reports, outcome.Answers client (findings t trail) response ∧
        bindingActs t trail = reports ++ [task.answer response] ∧
        (∀ act ∈ reports, act.pushed? = none) ∧
        ∃ first during later v x below point, InTurn t below ∧
          Call.Within client World.mainThread below (.push task.point (.ofResponse response true))
            (.initial host) trail w first during later v x ∧
          v.points[task.point]? = some point ∧
          ((∃ entries, point.phase = .listening entries ∧
              (observerIds entries).Pairwise (· < ·) ∧
              passCalls (history task.point during) = fanOut (.ofResponse response true, entries) ∧
              ∀ id interest code, .observer id interest code ∈ entries →
                (history task.point (during ++ later)).filter (Happening.turns (.observer id)) =
                  [.presented id code (.ofResponse response true) .pass]) ∨
            point.phase.isEnded ∧ rounds (history task.point during) = [] ∧
              ownActs task.point World.mainThread below during =
                [point.report task.point .lateEvent (some "final response")])) := by
  have he := run.no_escape hs ht hover he
  have hclosed := (run.account hs he).closed ht hover
  have hsettles := (run.account hs he).settles ht hover
  refine ⟨run.enacted hs, ?_, ?_⟩
  · rintro rfl
    generalize bindingActs t trail = acts at hsettles
    generalize findings t trail = found at hsettles
    cases hsettles
    rfl
  · intro hanswered
    obtain ⟨reports, response, hresponse, hacts, hreports⟩ := hsettles.answers hanswered
    have hmem : task.answer response ∈ bindingActs t trail := by simp [hacts]
    obtain ⟨first, during, later, v, x, below, point, hin, hserves, within, hp⟩ :=
      run.answer_call hs he hclosed hmem
    rcases within.push_finds hs hserves hp with ⟨entries, hopen⟩ | hended
    · obtain ⟨hcalls, hended, hturns⟩ := within.push_ends hs hserves hp hopen rfl
      refine ⟨hended, response, reports, hresponse, hacts, hreports, first, during, later, v, x, below,
        point, hin, within, hp, .inl ⟨entries, hopen, ?_, hcalls, hturns⟩⟩
      obtain ⟨s, course, stands⟩ := within.before.course_of_initial (within.sinksReturn hs).1 task.point
      have hsorted := course.ascending.sorted
      rwa [Standing.ids, stands.phase_eq, World.phase_eq hp, hopen] at hsorted
    · obtain ⟨hrounds, hacts', hended'⟩ := within.push_late hs hp hended
      exact ⟨hended', response, reports, hresponse, hacts, hreports, first, during, later, v, x, below,
        point, hin, within, hp, .inr ⟨hended, hrounds, hacts'⟩⟩

/-- A client whose producers fail with a failure that its code can render, and whose observers note the
response. -/
def refusingClient : Client Unit Unit Manner Notes :=
  { notingClient [] with
    poll := fun _ _ => .ret (.done (.error (.render ⟨"rejected", .stays⟩)))
    render := fun _ => .ret (.ok (some ())) }

def refused : List (Moment Unit Unit Manner Notes) × World Unit Unit Manner Notes :=
  let bound := World.runCalls refusingClient [] [.create "request" .recorder, .register 0 .active .stays,
    .register 0 .passive .declines, .bind 0 "producer" .stays {} none] 40
  (bound.1 ++ (bound.2.turnTrace refusingClient 60).1, (bound.2.turnTrace refusingClient 60).2)

theorem failures_are_answered_once_refused :
    Enacted refusingClient 0 refused.1 ∧ (refused.2.phase 0).isEnded ∧
    (∃ reports, bindingActs 0 refused.1 = reports ++ [.call (.push 0 (.ofResponse () true))]) ∧
    (∃ first during later v x below, Call.Within refusingClient World.mainThread below
        (.push 0 (.ofResponse () true)) (.initial []) refused.1 refused.2 first during later v x ∧
      passCalls (history 0 during) = [.presented 1 .stays (.ofResponse () true) .pass,
        .presented 2 .declines (.ofResponse () true) .pass, .notified 0 (.cancel 0) .pass] ∧
      (history 0 (during ++ later)).filter (Happening.turns (.observer 1)) =
        [.presented 1 .stays (.ofResponse () true) .pass] ∧
      (history 0 (during ++ later)).filter (Happening.turns (.observer 2)) =
        [.presented 2 .declines (.ofResponse () true) .pass]) ∧
    refused.2.host =
      [(.stays, some (.ofResponse () true)), (.declines, some (.ofResponse () true))] := by
  have run : Run refusingClient (.initial []) refused.1 refused.2 :=
    (World.run_runCalls refusingClient [] _ 40).trans (World.run_turnTrace refusingClient 60 (by decide))
  have hrendered : (refused.2.tasks[0]?.map fun task => (task.point, task.state.outcome?)) =
      some (0, some .rendered) := by decide
  obtain ⟨task, ht, hover⟩ := Option.map_eq_some_iff.mp hrendered
  obtain ⟨hpoint, hover⟩ : task.point = 0 ∧ task.state.outcome? = some .rendered := by
    simpa using hover
  obtain ⟨henacted, -, h⟩ := failures_are_answered_once run (by decide) ht hover nofun
  obtain ⟨hended, ⟨⟩, reports, -, hacts, -, first, during, later, v, x, below, point, -, within, hp,
    hfinds⟩ := h rfl
  rw [Task.answer, hpoint] at hacts
  rw [hpoint] at hended within hp hfinds
  refine ⟨henacted 0, hended, ⟨reports, hacts⟩,
    ⟨first, during, later, v, x, below, within, ?_⟩, by decide⟩
  -- the response finds the point open, with both observers on the list
  obtain ⟨_, rest, -, -, hfirst, -⟩ := within.call.first
  have hreceived : v.receives 0 (.push 0 (.ofResponse () true)) ⊆ history 0 refused.1 := by
    rw [within.trail_eq, hfirst, history_append]
    apply List.subset_append_of_subset_right
    exact List.subset_append_left _ _
  rcases hfinds with ⟨entries, hopen, -, hcalls, hturns⟩ | ⟨hlate, -, -⟩
  · have hreceives : v.receives 0 (.push 0 (.ofResponse () true)) =
        [.pushed (.ofResponse () true) .taken, .begun (.ofResponse () true) entries] := by
      simp [World.receives, hp, Op.waitsFor?, Point.receives, hopen]
    have hbegun : .begun (.ofResponse () true) entries ∈ history 0 refused.1 :=
      hreceived (hreceives ▸ List.mem_cons_of_mem _ List.mem_cons_self)
    have honly : ∀ round ∈ rounds (history 0 refused.1),
        round.2 = [.observer 1 .active .stays, .observer 2 .passive .declines, .ending 0 (.cancel 0)] := by
      decide
    obtain rfl := honly _ (List.mem_filterMap.mpr ⟨_, hbegun, rfl⟩)
    exact ⟨hcalls, hturns 1 .active .stays (by simp), hturns 2 .passive .declines (by simp)⟩
  · have hreceives : v.receives 0 (.push 0 (.ofResponse () true)) =
        [.pushed (.ofResponse () true) .late] := by
      cases hphase : point.phase <;> simp_all [World.receives, Op.waitsFor?, Point.receives, Phase.isEnded]
    exact absurd (hreceived (hreceives ▸ List.mem_cons_self)) (by decide)

/-! ## Panics of producers -/

theorem Settles.of_panicked {found : List (Finding M K)} {acts : List (Act M E K)} {payload : Payload}
    (h : Settles client t task found outcome acts) (hmem : .panicked payload ∈ found) :
    outcome = .panicked ∧ acts =
      [task.report .producerPanicked (some payload.info), task.answer client.internalError] := by
  cases h with
  | panicked payload' =>
    cases List.mem_singleton.mp hmem
    exact ⟨rfl, rfl⟩
  | renderFailed _ hun =>
    cases hun <;> simp at hmem
  | _ => simp at hmem

/-- Where panics are answered, a producer that panics while it is asked is reported once and answered
with the internal error, and when its task is over the point has ended. If it panics while it is started
nothing is reported and nothing pushed, although the outcome is the same. -/
theorem polled_panics_are_answered {host : H} (run : Run client (.initial host) trail w)
    (hs : SinksReturn trail) (ht : w.tasks[t]? = some task)
    (hover : task.state.outcome? = some outcome) (hset : task.config.answersPanics) :
    (∀ payload, .panicked payload ∈ findings t trail → outcome = .panicked ∧
      bindingActs t trail = [task.report .producerPanicked (some payload.info),
        task.answer client.internalError] ∧ (w.phase task.point).isEnded) ∧
    ((∃ m ∈ trail, m.escapes t) → outcome = .panicked ∧ bindingActs t trail = []) := by
  have hescaped (he : ∃ m ∈ trail, m.escapes t) :
      outcome = .panicked ∧ findings t trail = [] ∧ bindingActs t trail = [] := by
    obtain ⟨task', hclosed, -, hnone⟩ := run.escaped hs he
    cases ht.symm.trans hclosed.get
    rw [hclosed.state] at hover
    cases hover
    exact ⟨rfl, hnone hset⟩
  constructor
  · intro payload hmem
    have he : ∀ m ∈ trail, m.escapes t = false := by
      intro m hm
      cases hescapes : m.escapes t with
      | false => rfl
      | true =>
        rw [(hescaped ⟨m, hm, hescapes⟩).2.1] at hmem
        cases hmem
    have hclosed := (run.account hs he).closed ht hover
    obtain ⟨rfl, hacts⟩ := ((run.account hs he).settles ht hover).of_panicked hmem
    refine ⟨rfl, hacts, ?_⟩
    obtain ⟨first, during, later, v, x, below, point, -, hserves, within, hp⟩ :=
      run.answer_call hs he hclosed (hacts ▸ List.mem_cons_of_mem _ List.mem_cons_self)
    rcases within.push_finds hs hserves hp with ⟨entries, hopen⟩ | hended
    · exact (within.push_ends hs hserves hp hopen rfl).2.1
    · exact (within.push_late hs hp hended).2.2
  · intro he
    obtain ⟨hpanicked, -, hacts⟩ := hescaped he
    exact ⟨hpanicked, hacts⟩

/-- A client whose producers panic when they are asked. -/
def falteringClient : Client Unit Unit Bool Unit :=
  { plainClient with poll := fun _ _ => .panic (.text "lost") }

theorem polled_panics_are_answered_faltering :
    let bound := World.runCalls falteringClient () [.create "request" .recorder,
      .register 0 .active true, .bind 0 "producer" true {} none] 40
    ((bound.2.turnTrace falteringClient 60).2.phase 0).isEnded := by
  intro bound
  have run : Run falteringClient (.initial ()) (bound.1 ++ (bound.2.turnTrace falteringClient 60).1)
      (bound.2.turnTrace falteringClient 60).2 :=
    (World.run_runCalls falteringClient () _ 40).trans (World.run_turnTrace falteringClient 60 (by decide))
  have hpanicked : ((bound.2.turnTrace falteringClient 60).2.tasks[0]?.map fun task =>
      (task.point, task.config.answersPanics, task.state.outcome?)) =
      some (0, true, some .panicked) := by decide
  obtain ⟨task, ht, h⟩ := Option.map_eq_some_iff.mp hpanicked
  obtain ⟨hpoint, hset, hover⟩ : task.point = 0 ∧ task.config.answersPanics = true ∧
      task.state.outcome? = some .panicked := by simpa using h
  obtain ⟨hanswered, -⟩ := polled_panics_are_answered run (by decide) ht hover hset
  obtain ⟨-, -, hended⟩ := hanswered (.text "lost") (List.mem_of_getElem? (i := 0) rfl)
  exact hpoint ▸ hended

end Exchange
