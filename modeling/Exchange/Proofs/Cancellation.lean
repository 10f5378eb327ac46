import Exchange.Proofs.Notices
import Exchange.Proofs.Overtime

/-!
What cancels a task. The loss of interest in its point does, and so does the client that asks for it;
a binding cancels its own task only in a turn by the end of which the point has ended.
-/

namespace Exchange
set_option autoImplicit false

variable {M E K H : Type} {client : Client M E K H} {w w' : World M E K H} {t n p : Nat}
  {thread : Thread M E K H}
variable {control : Control M E K H} {stack : List (Frame M E K H)} {m : Move M E K H}
variable {host : H} {trail : List (Moment M E K H)} {task : Task K}

/-! ## The steps that cancel a task -/

theorem Control.cancels_cases (h : control.cancels t) :
    control = .perform (.cancel t) ∨ control = .act (.cancel t) ∨
      ∃ n, control = .act (.notify n (.cancel t)) := by
  unfold cancels at h
  split at h
  · simp_all
  · simp_all
  · simp_all
  · cases h

theorem World.move_cancels (hm : w.move client n stack control = some m) (hc : control.cancels t) :
    m.world.tasks = w.tasks.modify t Task.cancel := by
  rcases Control.cancels_cases hc with rfl | rfl | ⟨n, rfl⟩
  · cases hm
    exact tasks_cancel
  · cases hm
    exact tasks_cancel
  · cases hm
    exact tasks_cancel

/-- A task is cancelled by nothing but a step. -/
theorem Run.exists_cancels (run : Run client (.initial host) trail w) (ht : w.tasks[t]? = some task)
    (hcancelled : task.cancelled) : ∃ moment ∈ trail,
      moment.thread.control.cancels t ∧ moment.world.tasks[t]?.isSome := by
  induction run generalizing task with
  | refl => cases ht
  | @step trail w w' id thread run hthread hstep ih =>
    obtain ⟨m, hm, threads, rfl⟩ := World.move_of_step hthread hstep
    have hchange : TaskChange w thread.control thread.stack m.world.tasks := World.move_tasks hm
    cases hbefore : w.tasks[t]? with
    | none =>
      obtain ⟨-, _, _, _, _, _, _, -, -, rfl⟩ := hchange.new hbefore ht
      cases hcancelled
    | some before =>
      obtain ⟨after, hafter, hchanges⟩ := hchange.get hbefore
      cases ht.symm.trans hafter
      have earlier (hcancelled : before.cancelled) : ∃ moment ∈ trail ++ [⟨w, thread⟩],
          moment.thread.control.cancels t ∧ moment.world.tasks[t]?.isSome := by
        obtain ⟨moment, hmem, hcancels⟩ := ih hbefore hcancelled
        exact ⟨moment, List.mem_append_left _ hmem, hcancels⟩
      cases hchanges with
      | rests => exact earlier hcancelled
      | cancels hcancels =>
        refine ⟨⟨w, thread⟩, List.mem_append_right _ List.mem_cons_self, hcancels, ?_⟩
        simp [hbefore]
      | spawns => exact earlier (before.same_spawn.cancelled ▸ hcancelled)
      | turns _ _ hsame => exact earlier (hsame.cancelled ▸ hcancelled)
  | @between _ w _ _ hb ih =>
    obtain ⟨u, hturns⟩ := World.between_tasks hb
    cases hbefore : w.tasks[t]? with
    | none => cases ht.symm.trans (hturns.none hbefore)
    | some before =>
      obtain ⟨after, hafter, hsame⟩ := hturns.get hbefore
      cases ht.symm.trans hafter
      exact ih hbefore (hsame.cancelled ▸ hcancelled)

/-- A task that is cancelled stays so. -/
theorem Run.cancelled_of_cancels {moment : Moment M E K H} (run : Run client (.initial host) trail w)
    (ht : w.tasks[t]? = some task) (hmem : moment ∈ trail)
    (hcancels : moment.thread.control.cancels t) (hsome : moment.world.tasks[t]?.isSome) :
    task.cancelled := by
  obtain ⟨before, after, heq⟩ := List.append_of_mem hmem
  obtain ⟨-, id, v, hthread, hstep, later⟩ := run.split heq
  obtain ⟨m, hm, threads, rfl⟩ := World.move_of_step hthread hstep
  obtain ⟨bound, hbound⟩ := Option.isSome_iff_exists.mp hsome
  have hcancelled : m.world.tasks[t]? = some bound.cancel := by
    simp [World.move_cancels hm hcancels, hbound]
  obtain ⟨last, hlast, hlater⟩ := later.task_later (u := { m.world with threads }) hcancelled
  cases ht.symm.trans hlast
  exact hlater.cancelled rfl

/-! ## Calls on a point -/

/-- The turn of a task in which its binding acts. -/
def Frame.isAnswering : Frame M E K H → Bool
  | .turn _ stage => !stage.runsCode
  | _ => false

/-- The frame of a call on the point; `below` is the one below it. What a binding does in a turn is
no such call. -/
def Frame.isCall (p : Nat) (below : Option (Frame M E K H)) : Frame M E K H → Bool
  | .serving q => q = p
  | .acts q _ _ => q = p && !below.any isAnswering
  | _ => false

/-- A call on the point is under way. -/
def inCall (p : Nat) : List (Frame M E K H) → Bool
  | [] => false
  | frame :: stack => frame.isCall p stack.head? || inCall p stack

def World.InCall (w : World M E K H) (p : Nat) : Prop :=
  ∃ thread ∈ w.threads, inCall p thread.stack

instance (w : World M E K H) (p : Nat) : Decidable (w.InCall p) :=
  inferInstanceAs (Decidable (∃ thread ∈ w.threads, inCall p thread.stack = true))

theorem inCall_of_serves {frame : Frame M E K H} (hf : frame ∈ stack) (hs : frame.serves p) :
    inCall p stack := by
  induction stack with
  | nil => cases hf
  | cons other stack ih =>
    rcases List.mem_cons.mp hf with rfl | hf
    · cases frame with
      | serving q =>
        have hq : q = p := of_decide_eq_true hs
        simp [inCall, Frame.isCall, hq]
      | _ => cases hs
    · simp [inCall, ih hf]

theorem World.not_isServed_of_not_inCall (h : ¬w.InCall p) : ¬w.IsServed p := by
  rintro ⟨thread, hmem, frame, hframe, hserves⟩
  exact h ⟨thread, hmem, inCall_of_serves hframe hserves⟩

theorem sheltered_of_isAnswering {frame : Frame M E K H} (h : frame.isAnswering) :
    Sheltered [frame] := by
  cases frame with
  | turn u stage =>
    cases stage with
    | announcing code => exact .announcing u code
    | closing outcome => exact .closing u outcome
    | _ => cases h
  | _ => cases h

/-- The acts for a point on which no call is under way are those of bindings. -/
theorem sheltered_of_not_inCall (hs : Secure stack) (hr : Rooted stack) (hc : inCall p stack = false)
    {todo : List (Act M E K)} {answer : Reply M K} {rest : List (Frame M E K H)}
    (hacts : .acts p todo answer :: rest <:+ stack) : Sheltered (.acts p todo answer :: rest) := by
  induction stack with
  | nil => cases List.suffix_nil.mp hacts
  | cons frame stack ih =>
    simp only [inCall, Bool.or_eq_false_iff] at hc
    rcases List.suffix_cons_iff.mp hacts with heq | hacts
    · cases heq
      have hbelow : rest.head?.any Frame.isAnswering := by simpa [Frame.isCall] using hc.1
      cases rest with
      | nil => cases hbelow
      | cons turn below =>
        have hturn : turn.isTurn := by
          cases turn <;> first | rfl | cases hbelow
        obtain rfl : below = [] := hr.2.1 hturn
        exact (hs.1 (sheltered_of_isAnswering hbelow)).resolve_left id
    · exact ih hs.2 hr.2 hc.2 hacts

/-- Such acts are pushes and reports. -/
theorem quiet_of_not_inCall {act : Act M E K} (hs : thread.Secure) (hr : Rooted thread.stack)
    (hc : inCall p thread.stack = false) (hdue : (p, act) ∈ duesOf thread.control thread.stack) :
    act.IsQuiet := by
  obtain ⟨id, control, stack⟩ := thread
  have sheltered {todo : List (Act M E K)} {answer : Reply M K} {rest : List (Frame M E K H)}
      (hacts : .acts p todo answer :: rest <:+ stack) : Sheltered (.acts p todo answer :: rest) :=
    sheltered_of_not_inCall hs.stack hr hc hacts
  rcases mem_duesOf.mp hdue with hnow | ⟨frame, hframe, hlater⟩
  · cases stack with
    | nil => cases control <;> cases hnow
    | cons frame rest =>
      cases frame with
      | acts q todo answer =>
        cases control with
        | act due =>
          cases List.mem_singleton.mp hnow
          exact hs.control (sheltered List.suffix_rfl)
        | perform op =>
          cases List.mem_singleton.mp hnow
          have hop := hs.control (sheltered List.suffix_rfl)
          cases op with
          | push => trivial
          | _ => exact hop.elim
        | _ => cases hnow
      | _ => cases control <;> cases hnow
  · cases frame with
    | acts q todo answer =>
      obtain ⟨due, hmem, heq⟩ := List.mem_map.mp hlater
      cases heq
      obtain ⟨above, rest, rfl⟩ := List.append_of_mem hframe
      cases sheltered ⟨above, rfl⟩ with
      | acts hquiet => exact hquiet _ hmem
    | _ => cases hlater

theorem exists_due_of_promise (h : .notice n ∈ promisesOf p control stack) :
    ∃ notice, (p, .notify n notice) ∈ duesOf control stack := by
  have notify {holder : Option Nat} {act : Act M E K} (h : act.promise? p holder = some (.notice n)) :
      ∃ notice, act = .notify n notice ∧ holder = some p := by
    cases act with
    | notify ticket notice => simp_all
    | report => simp at h
    | _ => cases h
  rcases List.mem_append.mp h with hnow | hlater
  · cases control with
    | act due =>
      obtain ⟨notice, rfl, hholder⟩ := notify (Option.mem_toList.mp hnow)
      refine ⟨notice, mem_duesOf.mpr (.inl ?_)⟩
      simp [Control.dues, hholder]
    | _ => cases hnow
  · obtain ⟨frame, hframe, hpromise⟩ := List.mem_flatMap.mp hlater
    cases frame with
    | acts q todo answer =>
      obtain ⟨act, hmem, hpromise⟩ := List.mem_filterMap.mp hpromise
      obtain ⟨notice, rfl, hholder⟩ := notify hpromise
      cases hholder
      exact ⟨notice, mem_duesOf.mpr (.inr ⟨_, hframe, List.mem_map_of_mem hmem⟩)⟩
    | _ => cases hpromise

namespace World
variable (hw : w.Settled) (hc : ¬w.InCall p)
include hw hc

theorem quiet_of_mem {act : Act M E K} (hthread : thread ∈ w.threads)
    (hdue : (p, act) ∈ duesOf thread.control thread.stack) : act.IsQuiet := by
  apply quiet_of_not_inCall (hw.secure thread hthread) (hw.rooted.last thread hthread) _ hdue
  exact Bool.eq_false_iff.mpr fun h => hc ⟨thread, hthread, h⟩

/-- No notice is still to be given by calls on the point. -/
theorem notice_not_outstanding : .notice n ∉ w.outstanding p := by
  intro hout
  obtain ⟨thread, hthread, hpromise⟩ := List.mem_flatMap.mp hout
  obtain ⟨notice, hdue⟩ := exists_due_of_promise hpromise
  exact quiet_of_mem hw hc hthread hdue

end World

theorem World.unattended_of_isQuiet (h : w.IsQuiet) : w.Unattended t := by
  intro thread hthread hturn
  exact not_inTurn_nil ((h thread hthread).stack_eq ▸ hturn)

/-! ## The task and its point -/

theorem Binding.due (h : Binding t p control stack) :
    (p, .call (.atEnd p (.cancel t))) ∈ duesOf control stack := by
  cases h <;> simp [duesOf, Control.dues, Frame.dues]

section
variable (run : Run client (.initial host) trail w) (hs : SinksReturn trail)
variable (hm : ∀ moment ∈ trail, moment.meddles t = false)
include run hs hm

/-- Once no call on its point is under way a task has been tied to it, at one moment. -/
theorem Run.handOvers_eq (ht : w.tasks[t]? = some task) (hc : ¬w.InCall task.point) :
    ∃ b, handOvers t trail = [b] ∧ b.Binds t task.point := by
  have htied := run.tied hs hm
  generalize handOvers t trail = moments at htied ⊢
  cases htied with
  | unbound hnone => cases hnone.symm.trans ht
  | binding hbound hthread hbinding =>
    cases hbound.symm.trans ht
    have hw := run.settled (World.initial_settled host) hs
    exact (World.quiet_of_mem hw hc hthread hbinding.due).elim
  | bound hbound _ hbinds =>
    cases hbound.symm.trans ht
    exact ⟨_, rfl, hbinds⟩

theorem Run.bound_of_awaited {reception : Reception}
    (hmem : .awaited n (.cancel t) reception ∈ history p trail) : w.tasks[t]?.isSome := by
  obtain ⟨b, hb, -, -⟩ := handedOver_of_awaited hmem
  have htied := run.tied hs hm
  generalize handOvers t trail = moments at hb htied
  cases htied with
  | unbound => cases hb
  | binding => cases hb
  | bound hbound => simp [hbound]

theorem Run.cancelled_of_notified {occasion : Occasion} (ht : w.tasks[t]? = some task)
    (hmem : .notified n (.cancel t) occasion ∈ history p trail) : task.cancelled := by
  obtain ⟨moment, hmoment, hhappens⟩ := List.mem_flatMap.mp hmem
  obtain ⟨before, after, heq⟩ := List.append_of_mem hmoment
  obtain ⟨earlier, hsbefore, -⟩ := run.upTo hs heq
  have hmbefore : ∀ moment ∈ before, moment.meddles t = false := by
    intro other hother
    exact hm other (heq ▸ List.mem_append_left _ hother)
  obtain ⟨reception, hawaited, -⟩ := run.awaited_of_notified hs heq hhappens
  obtain ⟨hcontrol, -⟩ := Moment.notified_cases hhappens
  apply run.cancelled_of_cancels ht hmoment
  · simp [hcontrol, Control.cancels]
  · exact earlier.bound_of_awaited hsbefore hmbefore hawaited

end

/-- What is handed over to cancel the task is handed over when it is bound. -/
theorem Moment.Binds.eq_of_awaited {b : Moment M E K H} (h : b.Binds t p)
    (hone : handOvers t trail = [b]) {q : Nat} {reception : Reception}
    (hmem : .awaited n (.cancel t) reception ∈ history q trail) :
    q = p ∧ (b.world.phase p).receptionOfNotice = reception := by
  obtain ⟨other, hother, hcontrol, hreception⟩ := handedOver_of_awaited hmem
  rw [hone] at hother
  obtain rfl := List.mem_singleton.mp hother
  rw [h.control] at hcontrol
  cases hcontrol
  exact ⟨rfl, hreception⟩

theorem Phase.receptionOfNotice_eq_atOnce {phase : Phase M E K} :
    phase.receptionOfNotice = .atOnce ↔ phase.isListening ∧ ¬phase.hasInterest := by
  cases phase with
  | listening entries =>
    by_cases h : heldOpen entries <;> simp [receptionOfNotice, isListening, hasInterest, h]
  | _ => simp [receptionOfNotice, isListening]

/-- What has cancelled a task, once no call on its point is under way and none of its turns. -/
theorem Run.cause_of_cancelled (run : Run client (.initial host) trail w) (hs : SinksReturn trail)
    (ht : w.tasks[t]? = some task) (hserved : ¬w.IsServed task.point) (hturn : w.Unattended t)
    {b : Moment M E K H} (hone : handOvers t trail = [b]) (hbinds : b.Binds t task.point)
    (hcancelled : task.cancelled) :
    (w.phase task.point).isEnded ∨
      (b.world.phase task.point).receptionOfNotice = .atOnce ∨
      ∃ moment ∈ trail, moment.thread.control = .perform (.cancel t) ∧
        moment.world.tasks[t]?.isSome := by
  obtain ⟨moment, hmem, hcancels, hsome⟩ := run.exists_cancels ht hcancelled
  obtain ⟨s, course, stands⟩ := run.course_of_initial hs task.point
  have hidle := stands.idle hserved
  rcases Control.cancels_cases hcancels with hcontrol | hcontrol | ⟨n, hcontrol⟩
  · exact .inr (.inr ⟨moment, hmem, hcontrol, hsome⟩)
  · obtain ⟨reception, hpushed⟩ := run.pushed_of_overtime hs ht hturn hmem hcontrol
    exact .inl (stands.phase_eq ▸ course.ended_of_pushed hidle hpushed rfl)
  · obtain ⟨before, after, heq⟩ := List.append_of_mem hmem
    obtain ⟨earlier, hsbefore, hthread⟩ := run.upTo hs heq
    obtain ⟨q, occasion, hhappens⟩ := earlier.notified_of_control hsbefore hthread hcontrol
    have hnotified : .notified n (.cancel t) occasion ∈ history q trail :=
      List.mem_flatMap.mpr ⟨moment, hmem, hhappens⟩
    obtain ⟨reception, hawaited, hcall⟩ := run.awaited_of_notified hs heq hhappens
    have hawaited : .awaited n (.cancel t) reception ∈ history q trail := by
      rw [heq, history_append]
      exact List.mem_append_left _ hawaited
    obtain ⟨rfl, hreception⟩ := hbinds.eq_of_awaited hone hawaited
    by_cases hoccasion : occasion = .call
    · rcases hcall hoccasion with rfl | rfl
      · exact .inr (.inl hreception)
      · exact .inl (stands.phase_eq ▸ course.ended_of_late hawaited)
    · apply Or.inl
      rw [← stands.phase_eq]
      exact course.ended_of_final hidle hnotified (by simp [Happening.isFinal, hoccasion])

/-- In every run whose sinks return normally, a task that the client's code cancels in no other way
than by asking for it is cancelled, once no call on its point is under way and none of its turns, if and
only if the point has ended, or nobody held the point open when the call that bound the task reached
it, outside its passes, or the client has asked for it. -/
theorem tasks_are_cancelled_at_end (run : Run client (.initial host) trail w) (hs : SinksReturn trail)
    (hm : ∀ moment ∈ trail, moment.meddles t = false) (ht : w.tasks[t]? = some task)
    (hc : ¬w.InCall task.point) (hturn : w.Unattended t) :
    ∃ b, handOvers t trail = [b] ∧ b.Binds t task.point ∧
      (task.cancelled ↔
        (w.phase task.point).isEnded ∨
        (b.world.phase task.point).isListening ∧ ¬(b.world.phase task.point).hasInterest ∨
        ∃ moment ∈ trail, moment.thread.control = .perform (.cancel t) ∧
          moment.world.tasks[t]?.isSome) := by
  obtain ⟨b, hone, hbinds⟩ := run.handOvers_eq hs hm ht hc
  refine ⟨b, hone, hbinds, ?_⟩
  have hserved := World.not_isServed_of_not_inCall hc
  rw [← Phase.receptionOfNotice_eq_atOnce]
  constructor
  · exact run.cause_of_cancelled hs ht hserved hturn hone hbinds
  · have hw := run.settled (World.initial_settled host) hs
    have hb : b ∈ trail := (List.mem_filter.mp (hone ▸ List.mem_cons_self : b ∈ handOvers t trail)).1
    obtain ⟨n, hawaited⟩ := hbinds.awaited_mem hb
    have notified (h : (w.phase task.point).isEnded ∨
        (b.world.phase task.point).receptionOfNotice = .atOnce) : task.cancelled := by
      obtain ⟨occasion, hnotified⟩ := run.notified_of_awaited hs hserved
        (World.notice_not_outstanding hw hc) hawaited h
      exact run.cancelled_of_notified hs hm ht hnotified
    rintro (hended | honce | ⟨moment, hmem, hcontrol, hsome⟩)
    · exact notified (.inl hended)
    · exact notified (.inr honce)
    · exact run.cancelled_of_cancels ht hmem (by simp [hcontrol, Control.cancels]) hsome

theorem tasks_are_cancelled_at_end_plain : ∃ task,
    (World.runCalls plainClient () [.create "request" .recorder, .register 0 .active true,
      .bind 0 "producer" true {} none, .push 0 (.ofResponse () true)] 60).2.tasks[0]? = some task ∧
    task.cancelled := by
  have run := World.run_runCalls plainClient () [.create "request" .recorder,
    .register 0 .active true, .bind 0 "producer" true {} none, .push 0 (.ofResponse () true)] 60
  obtain ⟨b, -, -, h⟩ := tasks_are_cancelled_at_end run (t := 0) (by decide) (by decide) rfl
    (by decide) (World.unattended_of_isQuiet (by decide))
  exact ⟨_, rfl, h.mpr (.inl (by decide))⟩

end Exchange
