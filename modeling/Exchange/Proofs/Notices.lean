import Exchange.Proofs.HandOver
import Exchange.Proofs.InterestEnd
import Exchange.Proofs.Queue

/-!
Which notices are given. Whoever gives a notice gives one that has been handed over; and of those
handed over none is forgotten, once the point has ended and no call has anything left to do for it.
-/

namespace Exchange
set_option autoImplicit false

variable {M E K H : Type} {client : Client M E K H} {w w' : World M E K H} {t n p : Nat}
  {thread : Thread M E K H}
variable {host : H} {trail before after : List (Moment M E K H)} {moment : Moment M E K H}
variable {notice : Notice K} {reception : Reception}

/-! ## What tells that a point has ended -/

section
variable {s s' : Standing M E K} {history happenings : List (Happening M E K)}
variable {happening : Happening M E K}

/-- A point at rest has ended if anything has happened that is part of an end. -/
theorem Course.ended_of_final (h : Course .initial history s) (hidle : s.service = .idle)
    (hmem : happening ∈ history) (hfinal : happening.isFinal) : s.phase.isEnded := by
  have hfinale := h.finale
  cases hphase : s.phase with
  | listening =>
    rw [hphase] at hfinale
    rw [hfinale happening hmem] at hfinal
    cases hfinal
  | dispatching owner pass =>
    have hcoherent := h.coherent Standing.initial_coherent
    exact absurd hidle (hcoherent.dispatching owner pass hphase)
  | ended => rfl

/-- A final event that is pushed ends the point, if nothing else has. -/
theorem Course.ended_of_pushed (h : Course .initial history s) (hidle : s.service = .idle)
    {event : Event M E} (hmem : .pushed event reception ∈ history) (hlast : event.isLast) :
    s.phase.isEnded := by
  by_contra hopen
  have hordered := h.ordered
  obtain ⟨hdropped, hrefused⟩ := hordered.before hopen
  have hpasses : pushEvents history = passEvents history := by
    rw [hordered.order, hdropped, hrefused, h.upcoming_eq_nil hidle]
    exact List.append_nil _
  have hpushed : event ∈ pushEvents history := List.mem_filterMap.mpr ⟨_, hmem, rfl⟩
  rw [hpasses] at hpushed
  obtain ⟨happening, hbegun, hbegins⟩ := List.mem_filterMap.mp hpushed
  apply hopen
  apply h.ended_of_final hidle hbegun
  cases happening with
  | begun =>
    cases hbegins
    exact hlast
  | _ => cases hbegins

theorem Change.ended_of_late (h : Change s happenings s')
    (hmem : .awaited n notice .late ∈ happenings) : s.phase.isEnded := by
  cases h with
  | awaitsLate => rfl
  | aside ha =>
    obtain rfl := List.mem_singleton.mp hmem
    exact ha.elim
  | @gives _ _ _ entry =>
    cases entry <;> cases List.mem_singleton.mp hmem
  | _ => simp at hmem

/-- A notice that comes too late comes after the end, and the end is not taken back. -/
theorem Course.ended_of_late (h : Course .initial history s)
    (hmem : .awaited n notice .late ∈ history) : s.phase.isEnded := by
  obtain ⟨early, late, heq⟩ := List.append_of_mem hmem
  obtain ⟨_, now, first, last, now', _, -, hchange, later, -, -⟩ := h.split heq
  have hended := hchange.ended_of_late (List.mem_append_right first List.mem_cons_self)
  exact ((Course.refl.step hchange).trans later).passEvents_eq_nil hended |>.1

end

/-! ## Notices that are given have been handed over -/

theorem World.receives_atEnd {point : Point M E K} (hp : w.points[p]? = some point) :
    w.receives p (.atEnd p notice) =
      [.awaited point.nextTicket notice point.phase.receptionOfNotice] := by
  simp [receives, hp, Op.waitsFor?, Point.receives]

theorem reception_of_not_hasInterest {phase : Phase M E K} (h : ¬phase.hasInterest) :
    phase.receptionOfNotice = .atOnce ∨ phase.receptionOfNotice = .late := by
  cases phase <;> simp_all [Phase.hasInterest, Phase.receptionOfNotice]

/-- What a step comes to owe of notices has just been handed over. -/
theorem Incurs.awaited {control : Control M E K H} {stack : List (Frame M E K H)}
    {m : Move M E K H} (h : Incurs client w control stack m p (.notify n notice)) :
    ∃ reception, (reception = .atOnce ∨ reception = .late) ∧
      .awaited n notice reception ∈ Moment.happenings p ⟨w, ⟨t, control, stack⟩⟩ := by
  cases h with
  | mere hmere => exact hmere.elim
  | notifies hp hinterest =>
    refine ⟨_, reception_of_not_hasInterest hinterest, ?_⟩
    simp [Moment.happenings, World.receives_atEnd hp]
  | @closes _ _ _ ending _ _ _ _ hact =>
    cases ending <;>
      simp [Ending.acts, Ending.outcome, Ending.report, Ending.response] at hact

/-- A call that has a notice to give has been handed that notice, without interest. -/
theorem Run.awaited_of_due (run : Run client (.initial host) trail w) (hs : SinksReturn trail)
    (hthread : thread ∈ w.threads)
    (hdue : (p, .notify n notice) ∈ duesOf thread.control thread.stack) :
    ∃ reception, (reception = .atOnce ∨ reception = .late) ∧
      .awaited n notice reception ∈ history p trail := by
  induction run generalizing thread with
  | refl =>
    rw [List.mem_singleton.mp hthread] at hdue
    cases hdue
  | @step trail w w' id stepping run ht hstep ih =>
    obtain ⟨hs, -⟩ := sinksReturn_append.mp hs
    have hw := run.settled (World.initial_settled host) hs
    obtain ⟨⟨m, hm, stepped⟩, -⟩ := World.step_stepped hw.orderly ht hstep
    have hmem := World.mem_of_thread? ht
    have earlier {thread : Thread M E K H} (hthread : thread ∈ w.threads)
        (hdue : (p, .notify n notice) ∈ duesOf thread.control thread.stack) :
        ∃ reception, (reception = .atOnce ∨ reception = .late) ∧
          .awaited n notice reception ∈ history p (trail ++ [⟨w, stepping⟩]) := by
      obtain ⟨reception, hreception, hawaited⟩ := ih hs hthread hdue
      exact ⟨reception, hreception, history_append p _ _ ▸ List.mem_append_left _ hawaited⟩
    rcases stepped.succession.others_after hthread with rfl | hbefore | hbare
    · rcases World.move_dues hm (hw.rooted.last stepping hmem) hdue with hold | hincurs
      · exact earlier hmem hold
      · obtain ⟨reception, hreception, hawaited⟩ := hincurs.awaited (t := stepping.id)
        refine ⟨reception, hreception, ?_⟩
        rw [history_append]
        exact List.mem_append_right _ (List.mem_flatMap.mpr ⟨_, List.mem_cons_self, hawaited⟩)
    · exact earlier hbefore hdue
    · rw [hbare.dues] at hdue
      cases hdue
  | between _ hb ih =>
    rcases World.between_threads hb hthread with hbefore | hscheduled
    · exact ih hs hbefore hdue
    · exact (hscheduled.dues hdue).elim

/-- A notice whose turn it is has been handed over. -/
theorem Course.awaited_of_notified {s : Standing M E K} {past early late : List (Happening M E K)}
    {occasion : Occasion} (h : Course .initial past s)
    (heq : past = early ++ .notified n notice occasion :: late) (hcall : occasion ≠ .call) :
    ∃ reception, .awaited n notice reception ∈ early := by
  have hturns : (Happening.notified n notice occasion : Happening M E K).turns (.ticket n) := by
    simp [Happening.turns, hcall]
  obtain ⟨now, entry, event, course, hdue, -, hgiven⟩ := h.at_turn heq hturns
  obtain ⟨other, hother, hbrings⟩ := course.entries_brought entry (Standing.mem_entries_of_due hdue)
  cases entry with
  | observer => cases hgiven
  | ending =>
    cases hgiven
    rcases hbrings.eq_awaited with rfl | rfl
    · exact ⟨.taken, hother⟩
    · exact ⟨.putOff, hother⟩

/-- A notice is given by a delivery, or by a call that has it to give. -/
theorem Moment.notified_cases {occasion : Occasion}
    (h : .notified n notice occasion ∈ moment.happenings p) :
    moment.thread.control = .act (.notify n notice) ∧
      moment.happenings p = [.notified n notice occasion] ∧
      (occasion ≠ .call ∨ occasion = .call ∧
        (p, .notify n notice) ∈ duesOf moment.thread.control moment.thread.stack) := by
  obtain ⟨due, hcontrol, h⟩ := act_of_deed h rfl
  have hhappens : moment.happenings p = moment.world.does p moment.thread.stack.head? due := by
    simp only [happenings, hcontrol]
  rw [hhappens]
  cases due with
  | notify ticket other =>
    simp only [World.does] at h ⊢
    split at h
    · split at h
      · rename_i hq
        cases List.mem_singleton.mp h
        exact ⟨hcontrol, if_pos hq, .inl (Phase.occasion_ne_call _)⟩
      · cases h
    · rename_i htop
      split at h
      · rename_i hq
        cases List.mem_singleton.mp h
        refine ⟨hcontrol, if_pos hq, .inr ⟨rfl, ?_⟩⟩
        simp [duesOf, hcontrol, Control.dues, htop, hq]
      · cases h
    · cases h
  | report =>
    simp only [World.does] at h
    split at h <;> simp at h
  | present =>
    simp only [World.does] at h
    repeat' split at h
    all_goals simp at h
  | _ => cases h

/-- Whoever gives a notice gives it for a point. -/
theorem Run.notified_of_control (run : Run client (.initial host) trail w) (hs : SinksReturn trail)
    (hthread : thread ∈ w.threads) (hcontrol : thread.control = .act (.notify n notice)) :
    ∃ q occasion, .notified n notice occasion ∈ Moment.happenings q ⟨w, thread⟩ := by
  have haimed := run.aimed hs thread hthread
  rw [hcontrol] at haimed
  obtain ⟨q, htop | ⟨todo, answer, htop⟩⟩ := haimed
  · refine ⟨q, (w.phase q).occasion, ?_⟩
    simp [Moment.happenings, hcontrol, World.does, htop]
  · refine ⟨q, .call, ?_⟩
    simp [Moment.happenings, hcontrol, World.does, htop]

/-- The run up to one of its moments. -/
theorem Run.upTo {u : World M E K H} (run : Run client u trail w) (hs : SinksReturn trail)
    (heq : trail = before ++ moment :: after) :
    Run client u before moment.world ∧ SinksReturn before ∧
      moment.thread ∈ moment.world.threads := by
  obtain ⟨earlier, _, _, ht, -, -⟩ := run.split heq
  exact ⟨earlier, (sinksReturn_append.mp (heq ▸ hs)).1, World.mem_of_thread? ht⟩

/-- A notice that is given has been handed over before; if it is given by the call that handed it
over, there was no interest. -/
theorem Run.awaited_of_notified {occasion : Occasion} (run : Run client (.initial host) trail w)
    (hs : SinksReturn trail) (heq : trail = before ++ moment :: after)
    (hmem : .notified n notice occasion ∈ moment.happenings p) :
    ∃ reception, .awaited n notice reception ∈ history p before ∧
      (occasion = .call → reception = .atOnce ∨ reception = .late) := by
  obtain ⟨-, hhappens, hcall | ⟨rfl, hdue⟩⟩ := Moment.notified_cases hmem
  · have hsplit : history p trail =
        history p before ++ .notified n notice occasion :: history p after := by
      simp [heq, history, hhappens]
    obtain ⟨s, course, -⟩ := run.course_of_initial hs p
    obtain ⟨reception, hawaited⟩ := course.awaited_of_notified hsplit hcall
    exact ⟨reception, hawaited, fun h => absurd h hcall⟩
  · obtain ⟨earlier, hsbefore, hthread⟩ := run.upTo hs heq
    obtain ⟨reception, hreception, hawaited⟩ := earlier.awaited_of_due hsbefore hthread hdue
    exact ⟨reception, hawaited, fun _ => hreception⟩

/-! ## Notices that are handed over are given -/

/-- A notice is handed over once under its ticket. -/
theorem Course.eq_of_awaited {s : Standing M E K} {past : List (Happening M E K)}
    (h : Course .initial past s) {notice' : Notice K} {reception' : Reception}
    (hmem : .awaited n notice reception ∈ past) (hmem' : .awaited n notice' reception' ∈ past) :
    notice' = notice := by
  have hone := (h.asked n).1
  have hfirst := filter_eq_singleton hone hmem (by simp [Happening.asks])
  rw [filter_eq_singleton hone hmem' (by simp [Happening.asks])] at hfirst
  cases hfirst
  rfl

/-- A notice that has been handed over is given once the point has ended and nobody has it to give;
so is one that came while nobody held the point open. -/
theorem Run.notified_of_awaited (run : Run client (.initial host) trail w) (hs : SinksReturn trail)
    (hserved : ¬w.IsServed p) (hout : .notice n ∉ w.outstanding p)
    (hmem : .awaited n notice reception ∈ history p trail)
    (hended : (w.phase p).isEnded ∨ reception = .atOnce) :
    ∃ occasion, .notified n notice occasion ∈ history p trail := by
  obtain ⟨s, course, stands⟩ := run.course_of_initial hs p
  have joined (hjoins : (Happening.awaited n notice reception : Happening M E K).joins (.ticket n))
      (hended : (w.phase p).isEnded) : ∃ occasion, .notified n notice occasion ∈ history p trail :=
    course.gives_of_joins (stands.phase_eq ▸ hended) (stands.idle hserved) hmem hjoins
  -- what has been promised has been kept, and by that notice
  have promised (hpromise : Promise.notice n ∈
      (Happening.awaited n notice reception : Happening M E K).promises) :
      ∃ occasion, .notified n notice occasion ∈ history p trail := by
    have hkept : .notice n ∈ (history p trail).flatMap Happening.keeps := by
      have hpromises := List.mem_flatMap.mpr ⟨_, hmem, hpromise⟩
      rcases List.mem_append.mp ((run.keeps_promises hs).mem_iff.mpr hpromises) with hkept | hdue
      · exact hkept
      · exact absurd hdue hout
    obtain ⟨happening, hgiven, hkeeps⟩ := List.mem_flatMap.mp hkept
    obtain ⟨notice', rfl⟩ : ∃ notice', happening = .notified n notice' .call := by
      cases happening with
      | notified ticket other occasion => cases occasion <;> simp_all
      | reported kind reason => by_cases hkind : kind = .lateEvent <;> simp [hkind] at hkeeps
      | _ => simp at hkeeps
    obtain ⟨moment, hmoment, hhappens⟩ := List.mem_flatMap.mp hgiven
    obtain ⟨before, after, heq⟩ := List.append_of_mem hmoment
    obtain ⟨reception', hawaited, -⟩ := run.awaited_of_notified hs heq hhappens
    have hawaited' : .awaited n notice' reception' ∈ history p trail := by
      rw [heq, history_append]
      exact List.mem_append_left _ hawaited
    obtain rfl := course.eq_of_awaited hmem hawaited'
    exact ⟨.call, hgiven⟩
  cases reception with
  | taken => exact joined (by simp [Happening.joins]) (hended.resolve_right (by simp))
  | putOff => exact joined (by simp [Happening.joins]) (hended.resolve_right (by simp))
  | atOnce => exact promised (by simp)
  | late => exact promised (by simp)

/-! ## Notices that cancel tasks -/

theorem World.awaited_not_mem_returns {stays : Entry K → Bool} (frame : Frame M E K H) :
    .awaited n notice reception ∉ w.returns p stays frame := by
  cases frame with
  | serving q =>
    simp only [returns, Phase.progress]
    repeat' split
    all_goals simp
  | delivering q =>
    simp only [returns]
    split <;> simp
  | _ => simp [returns]

theorem World.awaited_not_mem_does {top : Option (Frame M E K H)} {due : Act M E K} :
    .awaited n notice reception ∉ w.does p top due := by
  cases due <;> simp only [does] <;> repeat' split
  all_goals simp

/-- A notice is handed over by a call. -/
theorem Moment.perform_of_awaited (h : .awaited n notice reception ∈ moment.happenings p) :
    moment.thread.control = .perform (.atEnd p notice) ∧
      (moment.world.phase p).receptionOfNotice = reception := by
  obtain ⟨world, id, control, stack⟩ := moment
  cases control with
  | perform op =>
    change _ ∈ world.receives p op at h
    cases op with
    | atEnd q other =>
      cases hp : world.points[p]? with
      | none => simp [World.receives, hp] at h
      | some point =>
        by_cases hq : q = p
        · subst hq
          rw [World.receives_atEnd hp] at h
          cases List.mem_singleton.mp h
          exact ⟨rfl, by simp [World.phase, hp]⟩
        · simp [World.receives, hp, Op.waitsFor?, hq] at h
    | _ =>
      simp only [World.receives, Point.receives] at h
      repeat' split at h
      all_goals simp at h
  | act due => exact absurd h World.awaited_not_mem_does
  | resume reply =>
    cases stack with
    | nil => cases h
    | cons frame stack => exact absurd h (World.awaited_not_mem_returns frame)
  | unwind payload =>
    cases stack with
    | nil => cases h
    | cons frame stack =>
      cases frame with
      | delivering q => exact absurd h (World.awaited_not_mem_returns (.delivering q))
      | _ => cases h
  | _ => cases h

/-- A notice that cancels the task has been handed over at some moment. -/
theorem handedOver_of_awaited (hmem : .awaited n (.cancel t) reception ∈ history p trail) :
    ∃ b ∈ handOvers t trail, b.thread.control = .perform (.atEnd p (.cancel t)) ∧
      (b.world.phase p).receptionOfNotice = reception := by
  obtain ⟨b, hb, hhappens⟩ := List.mem_flatMap.mp hmem
  obtain ⟨hcontrol, hreception⟩ := Moment.perform_of_awaited hhappens
  exact ⟨b, List.mem_filter.mpr ⟨hb, Moment.handsOver_iff.mpr ⟨p, hcontrol⟩⟩, hcontrol, hreception⟩

theorem Moment.Binds.awaited_mem {b : Moment M E K H} (h : b.Binds t p) (hb : b ∈ trail) :
    ∃ n, .awaited n (.cancel t) (b.world.phase p).receptionOfNotice ∈ history p trail := by
  obtain ⟨point, hp⟩ := h.point
  refine ⟨point.nextTicket, List.mem_flatMap.mpr ⟨b, hb, ?_⟩⟩
  simp [Moment.happenings, h.control, World.receives_atEnd hp, World.phase, hp]

end Exchange
