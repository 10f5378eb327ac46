import Exchange.Proofs.Account

/-!
Panics that get past the turn of a task: the task is over at once and its binding pushes nothing more,
although its outcome counts as one that is answered. Where no panic gets past, the outcome says whether
the binding has pushed a final response.
-/

namespace Exchange
set_option autoImplicit false

variable {M E K H : Type} {client : Client M E K H} {w w' : World M E K H} {t n : Nat}
  {thread : Thread M E K H}
variable {stack : List (Frame M E K H)} {task : Task K} {outcome : Outcome}
variable {found : List (Finding M K)} {acts : List (Act M E K)}

/-! ## Tasks that are over -/

/-- The task is over, and no thread is in the middle of its turn. -/
structure World.Closed (w : World M E K H) (t : Nat) (task : Task K) (outcome : Outcome) : Prop where
  get : w.tasks[t]? = some task
  state : task.state = .over outcome
  unattended : w.Unattended t

namespace World.Closed

theorem not_atTurn (h : w.Closed t task outcome) (ht : w.thread? n = some thread) :
    ¬AtTurn t thread.control thread.stack := by
  intro hturn
  exact h.unattended thread (World.mem_of_thread? ht) hturn.inTurn

theorem of_step (h : w.Closed t task outcome) (hw : w.Settled) (ht : w.thread? n = some thread)
    (hs : w.step client n = some w') :
    (∃ task', w'.Closed t task' outcome ∧ task'.config = task.config) ∧
      Moment.finding? t ⟨w, thread⟩ = none ∧ Moment.bindingAct? t ⟨w, thread⟩ = none := by
  have ha := h.not_atTurn ht
  obtain ⟨m, hm, -⟩ := World.move_of_step ht hs
  have hchange : TaskChange w thread.control thread.stack w'.tasks :=
    World.step_tasks hm ht hs ▸ World.move_tasks hm
  obtain ⟨task', htask', hchanges⟩ := hchange.get h.get
  obtain ⟨hnone, hact⟩ := h.unattended.of_step hw.orderly hw.rooted ht hs
  exact ⟨⟨task', ⟨htask', hchanges.over ha h.state, hnone⟩, hchanges.later.config⟩,
    Moment.finding?_eq_none ha, hact⟩

theorem of_between (h : w.Closed t task outcome) (hb : Between client w w') :
    w'.Closed t task outcome := by
  rcases World.between_turn (t := t) hb with ⟨htask, hthreads⟩ | ⟨ready, m, hbegun, hm, -, -⟩
  · refine ⟨htask.trans h.get, h.state, ?_⟩
    intro other hother hturn
    exact h.unattended other (hthreads other hother hturn) hturn
  · obtain ⟨task', ht', hopen⟩ := hbegun.unsettled hm
    cases ht'.symm.trans h.get
    rw [h.state] at hopen
    cases hopen

end World.Closed

theorem Account.closed (h : Account client t w found acts) (ht : w.tasks[t]? = some task)
    (hover : task.state.outcome? = some outcome) : w.Closed t task outcome := by
  have hopen (hnone : task.state.outcome? = none) : w.Closed t task outcome := by
    rw [hover] at hnone
    cases hnone
  cases h with
  | before hpending => exact hopen (hpending task ht).unsettled
  | during ht' hp =>
    cases ht.symm.trans ht'
    exact hopen hp.unsettled
  | after ht' hover' _ hnone =>
    cases ht.symm.trans ht'
    rw [hover'] at hover
    cases hover
    exact ⟨ht, hover', hnone⟩

/-! ## The step with which a panic escapes -/

/-- The event that the act pushes. -/
def Act.pushed? : Act M E K → Option (Event M E)
  | .call (.push _ event) => some event
  | _ => none

/-- A panic that escapes concludes the turn. -/
theorem World.unwind_of_escapes {payload : Payload} {stage : Stage K} (ht : w.tasks[t]? = some task)
    (he : Moment.escapes t ⟨w, ⟨n, .unwind payload, [.turn t stage]⟩⟩) :
    w.unwind client [] payload (.turn t stage) = w.conclude [] t .panicked := by
  rw [Moment.escapes_turn ht, Bool.and_eq_true, Bool.not_eq_true'] at he
  obtain ⟨-, hset⟩ := he
  simp only [unwind, ht]
  cases stage with
  | polling =>
    have hset : task.config.answersPanics = false := hset
    simp only [unwindTurn, hset]
  | rendering =>
    have hset : task.config.answersPanics = false := hset
    simp only [unwindTurn, hset]
  | _ => rfl

/-- Who lets a panic escape has a turn and is on its way to no answer: nothing has been pushed, and if
panics are answered it is the start of the producer that panics. -/
theorem Tenure.of_escape {payload : Payload} {stage : Stage K}
    (h : Tenure client t task found acts (.unwind payload) [.turn t stage])
    (ht : w.tasks[t]? = some task)
    (he : Moment.escapes t ⟨w, ⟨n, .unwind payload, [.turn t stage]⟩⟩) :
    acts.filterMap Act.pushed? = [] ∧
      (task.config.answersPanics →
        found ++ (task.finds w.clock stage (.unwind payload : Control M E K H)).toList = [] ∧
          acts = []) := by
  have hset : ¬(stage.isAnswered ∧ task.config.answersPanics) := by
    rw [Moment.escapes_turn ht, Bool.and_eq_true, Bool.not_eq_true'] at he
    rintro ⟨hanswered, hanswers⟩
    rw [hanswered, hanswers] at he
    cases he.2
  cases h with
  | starts hworking =>
    obtain ⟨rfl, -⟩ := hworking.at_turn trivial
    exact ⟨rfl, fun _ => ⟨rfl, rfl⟩⟩
  | polls hworking =>
    obtain ⟨rfl, -⟩ := hworking.at_turn trivial
    exact ⟨rfl, fun hanswers => absurd ⟨rfl, hanswers⟩ hset⟩
  | renders failure hworking =>
    obtain ⟨rfl, -⟩ := hworking.at_turn trivial
    exact ⟨rfl, fun hanswers => absurd ⟨rfl, hanswers⟩ hset⟩
  | announces _ hpaying =>
    obtain ⟨-, -, reply, hreply⟩ := hpaying.at_turn
    cases hreply
  | closes _ _ _ hpaying =>
    obtain ⟨-, -, reply, hreply⟩ := hpaying.at_turn
    cases hreply

/-- A panic has escaped: the task is over, and its binding has pushed nothing. -/
def Escaped (t : Nat) (w : World M E K H) (found : List (Finding M K)) (acts : List (Act M E K)) :
    Prop :=
  ∃ task, w.Closed t task .panicked ∧ acts.filterMap Act.pushed? = [] ∧
    (task.config.answersPanics → found = [] ∧ acts = [])

theorem Escaped.of_step (h : Escaped t w found acts) (hw : w.Settled)
    (ht : w.thread? n = some thread) (hs : w.step client n = some w') :
    Escaped t w' (found ++ (Moment.finding? t ⟨w, thread⟩).toList)
      (acts ++ (Moment.bindingAct? t ⟨w, thread⟩).toList) := by
  obtain ⟨task, hclosed, hpushed, hset⟩ := h
  obtain ⟨⟨task', hclosed', hconfig⟩, hfinding, hact⟩ := hclosed.of_step hw ht hs
  rw [hfinding, hact, Option.toList_none, Option.toList_none, List.append_nil, List.append_nil]
  exact ⟨task', hclosed', hpushed, hconfig ▸ hset⟩

theorem Account.escaped (h : Account client t w found acts) (hw : w.Settled)
    (ht : w.thread? n = some thread) (hs : w.step client n = some w')
    (hr : thread.sinkPanics = false) (he : Moment.escapes t ⟨w, thread⟩) :
    Escaped t w' (found ++ (Moment.finding? t ⟨w, thread⟩).toList)
      (acts ++ (Moment.bindingAct? t ⟨w, thread⟩).toList) := by
  have hmem := World.mem_of_thread? ht
  have hw' := hw.of_step ht hs hr
  obtain ⟨⟨m, hm, stepped⟩, -⟩ := World.step_stepped hw.orderly ht hs
  obtain ⟨id, control, stack⟩ := thread
  -- the panic has reached the turn of the task
  have hat : ∃ payload stage, control = .unwind payload ∧ stack = [.turn t stage] := by
    unfold Moment.escapes at he
    split at he
    · rename_i u stage rest hthread
      cases hthread
      obtain rfl : u = t := by
        simp only [Bool.and_eq_true, decide_eq_true_eq] at he
        exact he.1.1
      obtain rfl : rest = [] := (hw.rooted.last _ hmem).1 rfl
      exact ⟨_, stage, rfl, rfl⟩
    · cases he
  obtain ⟨payload, stage, rfl, rfl⟩ := hat
  have hturn : InTurn t ([.turn t stage] : List (Frame M E K H)) := ⟨stage, List.mem_cons_self⟩
  cases h with
  | before _ hnone => exact absurd hturn (hnone _ hmem)
  | after _ _ _ hnone => exact absurd hturn (hnone _ hmem)
  | @during task other _ _ htask hp hother htenure =>
    obtain rfl := Account.same_thread hw.orderly hw.rooted hother hmem htenure.inTurn hturn
    obtain ⟨hpushed, hset⟩ := htenure.of_escape htask he
    rw [Moment.finding?_turn htask, Moment.bindingAct?_of_return (Control.isReturn_unwind payload),
      Option.toList_none, List.append_nil]
    have htasks := World.step_tasks hm ht hs
    obtain rfl : w.conclude [] t .panicked = m :=
      (World.unwind_of_escapes htask he).symm.trans (Option.some.inj hm)
    refine ⟨_, ⟨World.task_of_modify htasks htask, rfl, ?_⟩, hpushed, hset⟩
    intro other hother hin
    obtain rfl := hw'.orderly.eq_of_id_eq hother stepped.succession.mem_after
      ((hw'.rooted.main other hother t hin).trans (hw.rooted.main _ hmem t hturn).symm)
    exact World.not_inTurn_nil hin

theorem Run.lets_escape {u : World M E K H} {trail : List (Moment M E K H)} (run : Run client u trail w)
    (hu : u.Settled) (hbegin : Account client t u [] []) (hs : SinksReturn trail)
    (he : ∃ m ∈ trail, m.escapes t) : Escaped t w (findings t trail) (bindingActs t trail) := by
  induction run with
  | refl =>
    obtain ⟨m, hm, -⟩ := he
    cases hm
  | @step trail w w' n thread before ht hstep ih =>
    obtain ⟨hs, hlast⟩ := sinksReturn_append.mp hs
    have hw : w.Settled := before.settled hu hs
    rw [findings_snoc, bindingActs_snoc]
    by_cases hearlier : ∃ m ∈ trail, m.escapes t
    · exact (ih hs hearlier).of_step hw ht hstep
    · have hnone : ∀ m ∈ trail, m.escapes t = false := by
        intro m hm
        cases hescapes : m.escapes t with
        | true => exact absurd ⟨m, hm, hescapes⟩ hearlier
        | false => rfl
      refine (before.accounts hu hbegin hs hnone).escaped hw ht hstep (hlast _ List.mem_cons_self) ?_
      obtain ⟨m, hm, hescapes⟩ := he
      rcases List.mem_append.mp hm with hm | hm
      · exact absurd ⟨m, hm, hescapes⟩ hearlier
      · rw [← List.mem_singleton.mp hm]
        exact hescapes
  | between before hb ih =>
    obtain ⟨task, hclosed, hrest⟩ := ih hs he
    exact ⟨task, hclosed.of_between hb, hrest⟩

theorem Run.escaped {host : H} {trail : List (Moment M E K H)}
    (run : Run client (.initial host) trail w) (hs : SinksReturn trail)
    (he : ∃ m ∈ trail, m.escapes t) : Escaped t w (findings t trail) (bindingActs t trail) :=
  run.lets_escape (World.initial_settled host) (.initial host) hs he

/-- Only from a turn whose outcome is a panic has one escaped. -/
theorem Run.no_escape {host : H} {trail : List (Moment M E K H)}
    (run : Run client (.initial host) trail w) (hs : SinksReturn trail)
    (ht : w.tasks[t]? = some task) (hover : task.state.outcome? = some outcome)
    (he : outcome = .panicked → ∀ m ∈ trail, m.escapes t = false) :
    ∀ m ∈ trail, m.escapes t = false := by
  intro m hm
  cases hescapes : m.escapes t with
  | false => rfl
  | true =>
    obtain ⟨task', hclosed, -⟩ := run.escaped hs ⟨m, hm, hescapes⟩
    cases ht.symm.trans hclosed.get
    rw [hclosed.state] at hover
    cases hover
    rw [he rfl m hm] at hescapes
    cases hescapes

/-! ## What the outcome says of the pushes -/

/-- The events that the task's binding pushes along a trail. -/
def bindingPushes (t : Nat) (trail : List (Moment M E K H)) : List (Event M E) :=
  (bindingActs t trail).filterMap Act.pushed?

/-- By the row of an outcome a final response is pushed, or nothing is. -/
theorem Settles.pushes (h : Settles client t task found outcome acts) :
    if outcome.answered then ∃ response, acts.filterMap Act.pushed? = [.ofResponse response true]
      else acts.filterMap Act.pushed? = [] := by
  cases h with
  | completed => exact rfl
  | cancelled => exact rfl
  | gaveUp => exact rfl
  | rendered _ response => exact ⟨response, rfl⟩
  | renderFailed => exact ⟨_, rfl⟩
  | failed => exact ⟨_, rfl⟩
  | panicked => exact ⟨_, rfl⟩
  | timedOut => exact ⟨_, rfl⟩

/-- A task from whose turn no panic has escaped has an outcome that counts as answered if and only if
its binding has pushed one final response, and else the binding has pushed nothing. After a panic that
has escaped the outcome counts as answered, and yet nothing has been pushed. -/
theorem outcomes_tell_pushes {host : H} {trail : List (Moment M E K H)}
    (run : Run client (.initial host) trail w) (hs : SinksReturn trail)
    (ht : w.tasks[t]? = some task) (hover : task.state.outcome? = some outcome) :
    ((∀ m ∈ trail, m.escapes t = false) →
      (outcome.answered ↔ ∃ response, bindingPushes t trail = [.ofResponse response true]) ∧
      (outcome.answered = false ↔ bindingPushes t trail = [])) ∧
    ((∃ m ∈ trail, m.escapes t) →
      outcome = .panicked ∧ outcome.answered ∧ bindingPushes t trail = []) := by
  constructor
  · intro he
    have hsettles : Settles client t task (findings t trail) outcome (bindingActs t trail) := by
      generalize hf : findings t trail = found
      generalize ha : bindingActs t trail = acts
      exact (hf ▸ ha ▸ run.account hs he).settles ht hover
    have hpushes := hsettles.pushes
    unfold bindingPushes
    cases hanswered : outcome.answered with
    | true =>
      rw [hanswered, if_pos rfl] at hpushes
      obtain ⟨response, hpushed⟩ := hpushes
      rw [hpushed]
      exact ⟨⟨fun _ => ⟨response, rfl⟩, fun _ => rfl⟩, nofun, nofun⟩
    | false =>
      rw [hanswered, if_neg Bool.false_ne_true] at hpushes
      rw [hpushes]
      exact ⟨⟨nofun, fun ⟨_, h⟩ => absurd h (List.cons_ne_nil _ _).symm⟩, fun _ => rfl, fun _ => rfl⟩
  · intro he
    obtain ⟨task', hclosed, hpushed, -⟩ := run.escaped hs he
    cases ht.symm.trans hclosed.get
    rw [hclosed.state] at hover
    cases hover
    exact ⟨rfl, rfl, hpushed⟩

/-- A client whose producers panic when they are started. -/
def abortiveClient : Client Unit Unit Bool Unit :=
  { plainClient with start := fun _ _ => .panic .other }

/-- A task whose producer panics at its start is over and counts as answered; its binding has pushed
nothing, and its point is still open. -/
theorem escape_counts_as_answered :
    let bound := World.runCalls abortiveClient () [.create "request" .recorder,
      .register 0 .active true, .bind 0 "producer" true {} none] 40
    let turned := bound.2.turnTrace abortiveClient 60
    turned.2.IsQuiet ∧ (turned.2.tasks[0]?.bind (·.state.outcome?)) = some .panicked ∧
      Outcome.panicked.answered ∧ bindingPushes 0 (bound.1 ++ turned.1) = [] ∧
      (turned.2.phase 0).isListening := by
  decide

theorem outcomes_tell_pushes_rejecting : ∃ response : Unit,
    bindingPushes 0 ((World.runCalls rejectingClient () [.create "request" .recorder,
        .register 0 .active true, .bind 0 "producer" true {} none] 40).1 ++
      ((World.runCalls rejectingClient () [.create "request" .recorder,
        .register 0 .active true, .bind 0 "producer" true {} none] 40).2.turnTrace
          rejectingClient 60).1) = [.ofResponse response true] := by
  let bound := World.runCalls rejectingClient () [.create "request" .recorder,
    .register 0 .active true, .bind 0 "producer" true {} none] 40
  have run : Run rejectingClient (.initial ()) (bound.1 ++ (bound.2.turnTrace rejectingClient 60).1)
      (bound.2.turnTrace rejectingClient 60).2 :=
    (World.run_runCalls rejectingClient () _ 40).trans (World.run_turnTrace rejectingClient 60 (by decide))
  have hrendered : ((bound.2.turnTrace rejectingClient 60).2.tasks[0]?.bind fun task =>
      task.state.outcome?) = some .rendered := by decide
  obtain ⟨task, ht, hover⟩ := Option.bind_eq_some_iff.mp hrendered
  obtain ⟨h, -⟩ := outcomes_tell_pushes run (by decide) ht hover
  exact (h (by decide)).1.mp rfl

end Exchange
