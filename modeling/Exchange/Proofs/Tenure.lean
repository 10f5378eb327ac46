import Exchange.Proofs.Shelter

/-!
A task while it has its turn: how far the turn has come, against what has been found of the producer
and what the binding has done so far.
-/

namespace Exchange
set_option autoImplicit false

variable {M E K H : Type} {client : Client M E K H} {w w' : World M E K H} {t n : Nat}
  {thread : Thread M E K H}
variable {control : Control M E K H} {stack : List (Frame M E K H)} {m : Move M E K H}
variable {task task' : Task K} {stage : Stage K}

/-- Something comes back to the turn of the task. -/
def AtTurn (t : Nat) (control : Control M E K H) (stack : List (Frame M E K H)) : Prop :=
  (∃ stage rest, stack = .turn t stage :: rest) ∧ control.IsReturn

/-- What the binding of the task does at the moment. -/
def Moment.bindingAct? (t : Nat) (m : Moment M E K H) : Option (Act M E K) :=
  match m.thread with
  | ⟨_, .act due, .acts _ _ _ :: .turn u _ :: _⟩ => if u = t then some due else none
  | _ => none

theorem Moment.bindingAct?_some {due : Act M E K} (hr : Rooted stack)
    (h : Moment.bindingAct? t ⟨w, ⟨n, control, stack⟩⟩ = some due) :
    control = .act due ∧ ∃ p todo answer stage, stack = [.acts p todo answer, .turn t stage] := by
  unfold bindingAct? at h
  split at h
  · rename_i hthread
    split at h
    · rename_i hsame
      cases hthread
      cases h
      obtain rfl := hr.2.1 rfl
      exact ⟨rfl, _, _, _, _, by rw [hsame]⟩
    · cases h
  · cases h

theorem Moment.finding?_turn (ht : w.tasks[t]? = some task) :
    Moment.finding? t ⟨w, ⟨n, control, [.turn t stage]⟩⟩ = task.finds w.clock stage control := by
  simp [finding?, ht]

theorem Moment.finding?_eq_none (h : ¬AtTurn t control stack) :
    Moment.finding? t ⟨w, ⟨n, control, stack⟩⟩ = none := by
  rw [Option.eq_none_iff_forall_ne_some]
  intro finding hfinding
  unfold finding? at hfinding
  split at hfinding
  · rename_i stage rest task hstack _
    split at hfinding
    · rename_i hsame
      apply h
      refine ⟨⟨stage, rest, hsame ▸ hstack⟩, ?_⟩
      cases control with
      | resume => trivial
      | unwind => trivial
      | _ => cases stage <;> cases hfinding
    · cases hfinding
  · cases hfinding

theorem Moment.escapes_turn {payload : Payload} (ht : w.tasks[t]? = some task) :
    Moment.escapes t ⟨w, ⟨n, .unwind payload, [.turn t stage]⟩⟩ =
      (stage.runsCode && !(stage.isAnswered && task.config.answersPanics)) := by
  simp [escapes, ht]

theorem Moment.escapes_of_not_answered {payload : Payload} (ht : w.tasks[t]? = some task)
    (hcode : stage.runsCode) (hset : ¬(stage.isAnswered ∧ task.config.answersPanics)) :
    Moment.escapes t ⟨w, ⟨n, .unwind payload, [.turn t stage]⟩⟩ := by
  rw [escapes_turn ht, hcode, Bool.true_and, Bool.not_eq_true']
  simpa using hset

/-! ## What the binding has still to do -/

/-- How far the turn has come with all that the binding does at that stage. -/
inductive Paying (t : Nat) (stage : Stage K) (all : List (Act M E K)) :
    List (Act M E K) → Control M E K H → List (Frame M E K H) → Prop
  | about {p : Nat} {done : List (Act M E K)} {due : Act M E K} {todo : List (Act M E K)} :
      all = done ++ due :: todo →
      Paying t stage all done (.act due) [.acts p todo .done, .turn t stage]
  | amid {p : Nat} {done todo : List (Act M E K)} {control : Control M E K H}
      (above : List (Frame M E K H)) : all = done ++ todo →
      (above = [] → ∀ due, control ≠ .act due) →
      Paying t stage all done control (above ++ [.acts p todo .done, .turn t stage])
  | finished {reply : Reply M K} : Paying t stage all all (.resume reply) [.turn t stage]

namespace Paying
variable {all done : List (Act M E K)}

/-- A reply comes back to the acts that are left. -/
theorem replied {p : Nat} {todo : List (Act M E K)} (hall : all = done ++ todo)
    (reply : Reply M K) :
    Paying t stage all done (.resume reply : Control M E K H)
      [.acts p todo .done, .turn t stage] := by
  apply Paying.amid [] hall
  intro _ due hact
  cases hact

/-- A step right above the acts that are left. -/
theorem step_base {p : Nat} {todo : List (Act M E K)}
    (hm : w.move client n [.acts p todo .done, .turn t stage] control = some m)
    (hall : all = done ++ todo) (hact : ∀ due, control ≠ .act due) (hc : control.IsSecure) :
    Paying t stage all done m.control m.stack := by
  have above (frames : List (Frame M E K H)) (hf : frames ≠ []) (control : Control M E K H) :
      Paying t stage all done control (frames ++ [.acts p todo .done, .turn t stage]) :=
    .amid frames hall fun h => absurd h hf
  cases control with
  | resume reply =>
    cases hm
    cases todo with
    | nil =>
      rw [List.append_nil] at hall
      exact hall ▸ .finished
    | cons first todo => exact .about hall
  | deliver sink diagnostic =>
    cases hm
    cases sink with
    | client name code => exact above [.receiving] (by simp) _
    | recorder => exact replied hall .done
    | set members => exact above [_] (by simp) _
  | perform op =>
    cases op with
    | push q event =>
      have hpush : w.perform client n [.acts p todo .done, .turn t stage] (.push q event) = some m := hm
      obtain ⟨hreply, hstack | hstack | ⟨point, hstack⟩⟩ := World.push_moves hpush
      · rw [hreply, hstack]
        exact replied hall .done
      · rw [hstack]
        exact above [_] (by simp) _
      · rw [hstack]
        exact above [_] (by simp) _
    | _ => exact hc.elim
  | act due => exact absurd rfl (hact due)
  | _ => exact hc.elim

theorem step (h : Paying t stage all done control stack) (hr : Rooted stack)
    (hm : w.move client n stack control = some m) (hs : Stacked stack)
    (hsecure : Thread.Secure ⟨n, control, stack⟩) (hq : ∀ act ∈ all, act.IsQuiet)
    (hstage : Sheltered ([.turn t stage] : List (Frame M E K H))) :
    Paying t stage all
        (done ++ (Moment.bindingAct? t ⟨w, ⟨n, control, stack⟩⟩).toList) m.control m.stack ∨
      stack = [.turn t stage] ∧ done = all ∧ ∃ reply, control = .resume reply := by
  have nothing (hnot : ∀ due, control = .act due → 2 < stack.length) :
      Moment.bindingAct? t ⟨w, ⟨n, control, stack⟩⟩ = none := by
    cases hact : Moment.bindingAct? t ⟨w, ⟨n, control, stack⟩⟩ with
    | none => rfl
    | some due =>
      obtain ⟨hdue, p, todo, answer, stage, rfl⟩ := Moment.bindingAct?_some hr hact
      have hlength := hnot due hdue
      simp at hlength
  cases h with
  | @about p done due todo hall =>
    left
    have hown : Moment.bindingAct? t ⟨w, ⟨n, .act due, [.acts p todo .done, .turn t stage]⟩⟩ =
        some due := by
      simp [Moment.bindingAct?]
    have hall' : all = (done ++ (some due).toList) ++ todo := by simp [hall]
    have hquiet : due.IsQuiet := hq due (by simp [hall])
    rw [hown]
    cases hm
    cases due with
    | report => exact .amid [] hall' fun _ _ => nofun
    | cancel => exact .replied hall' _
    | call op => exact .amid [] hall' fun _ _ => nofun
    | _ => exact hquiet.elim
  | @amid p done todo control above hall hact =>
    left
    have hsheltered : Sheltered ([.acts p todo .done, .turn t stage] : List (Frame M E K H)) := by
      refine .acts ?_ hstage
      intro act hmem
      exact hq act (by simp [hall, hmem])
    cases above with
    | nil =>
      rw [nothing fun due hdue => absurd hdue (hact rfl due), Option.toList_none, List.append_nil]
      exact step_base hm hall (hact rfl) (hsecure.control hsheltered)
    | cons frame above =>
      rw [nothing fun _ _ => by simp, Option.toList_none, List.append_nil]
      rw [List.cons_append] at hm hs
      obtain ⟨frames, hstack, hnil⟩ := (World.move_stride hm).base hs.seated
      rw [hstack]
      refine .amid frames hall ?_
      intro hframes due hdue
      obtain ⟨-, -, hserving⟩ := hnil hframes
      obtain ⟨q, hq⟩ := hserving due hdue
      cases hq
  | finished => exact .inr ⟨rfl, rfl, _, rfl⟩

theorem at_turn {stage' : Stage K} (h : Paying t stage all done control [.turn t stage']) :
    stage' = stage ∧ done = all ∧ ∃ reply, control = .resume reply := by
  generalize hstack : [Frame.turn t stage'] = stack at h
  cases h with
  | about => cases hstack
  | amid above =>
    have hlength := congrArg List.length hstack
    simp at hlength
  | finished =>
    cases hstack
    exact ⟨rfl, rfl, _, rfl⟩

theorem inTurn (h : Paying t stage all done control stack) : InTurn t stack := by
  cases h <;> exact ⟨stage, by simp⟩

end Paying

theorem Working.inTurn (h : Working t stage control stack) : InTurn t stack := by
  cases h <;> exact ⟨stage, by simp⟩

theorem Working.at_turn {stage' : Stage K} (h : Working t stage control [.turn t stage'])
    (hc : control.IsReturn) : stage' = stage ∧
      ((∃ reply, control = .resume reply ∧ stage.Expects reply) ∨
        ∃ payload, control = .unwind payload) := by
  generalize hstack : [Frame.turn t stage'] = stack at h
  cases h with
  | runs => exact hc.elim
  | gives hexpects =>
    cases hstack
    exact ⟨rfl, .inl ⟨_, rfl, hexpects⟩⟩
  | panics =>
    cases hstack
    exact ⟨rfl, .inr ⟨_, rfl⟩⟩
  | calls above =>
    have hlength := congrArg List.length hstack
    simp at hlength

theorem Working.bindingAct? (h : Working t stage control stack) (hr : Rooted stack) :
    Moment.bindingAct? t ⟨w, ⟨n, control, stack⟩⟩ = none := by
  rw [Option.eq_none_iff_forall_ne_some]
  intro due hdue
  obtain ⟨hact, p, todo, answer, other, hstack⟩ := Moment.bindingAct?_some hr hdue
  subst hact
  generalize hcontrol : Control.act due = control at h
  cases h with
  | runs => cases hcontrol
  | gives => cases hcontrol
  | panics => cases hcontrol
  | calls above =>
    have hlength := congrArg List.length hstack
    obtain rfl : above = [] := by simpa using hlength
    cases hstack

/-! ## The turn of a task -/

/-- A task that has not come to its end. What deadline it has it was bound with. -/
structure Task.Pending (task : Task K) : Prop where
  unsettled : task.state.outcome? = none
  timely : task.deadline.isSome → task.config.deadline = some task.config.timeout

/-- A turn under way: which code runs or what is still to be done, after what has been found of the
producer and what the binding has done. -/
inductive Tenure (client : Client M E K H) (t : Nat) (task : Task K) :
    List (Finding M K) → List (Act M E K) → Control M E K H → List (Frame M E K H) → Prop
  | starts {control : Control M E K H} {stack : List (Frame M E K H)} :
      Working t .starting control stack → Tenure client t task [] [] control stack
  | polls {control : Control M E K H} {stack : List (Frame M E K H)} :
      Working t .polling control stack → Tenure client t task [] [] control stack
  | announces (failure : Renderable K) {done : List (Act M E K)} {control : Control M E K H}
      {stack : List (Frame M E K H)} :
      Paying t (.announcing failure.respond) [task.announcement failure] done control stack →
      Tenure client t task [.returned (.error (.render failure))] done control stack
  | renders (failure : Renderable K) {control : Control M E K H} {stack : List (Frame M E K H)} :
      Working t .rendering control stack →
      Tenure client t task [.returned (.error (.render failure))] [task.announcement failure]
        control stack
  | closes {findings : List (Finding M K)} {outcome : Outcome} (earlier : List (Act M E K))
      {all done : List (Act M E K)} {control : Control M E K H} {stack : List (Frame M E K H)} :
      Settles client t task findings outcome (earlier ++ all) → (∀ act ∈ all, act.IsQuiet) →
      Paying t (.closing outcome) all done control stack →
      Tenure client t task findings (earlier ++ done) control stack

/-- What a turn has come to after a step: it goes on, or the task waits for the next, or is over. -/
inductive Upshot (client : Client M E K H) (t : Nat) (task : Task K) :
    List (Finding M K) → List (Act M E K) → Control M E K H → List (Frame M E K H) → Prop
  | goesOn {findings : List (Finding M K)} {acts : List (Act M E K)} {control : Control M E K H}
      {stack : List (Frame M E K H)} : task.Pending →
      Tenure client t task findings acts control stack →
      Upshot client t task findings acts control stack
  | waits {control : Control M E K H} : task.Pending → Upshot client t task [] [] control []
  | ends {findings : List (Finding M K)} {outcome : Outcome} {acts : List (Act M E K)}
      {control : Control M E K H} : task.state = .over outcome →
      Settles client t task findings outcome acts →
      Upshot client t task findings acts control []

namespace Tenure
variable {findings : List (Finding M K)} {acts : List (Act M E K)}

theorem later (h : Tenure client t task findings acts control stack) (hl : task.Later task') :
    Tenure client t task' findings acts control stack := by
  have hannounce (failure : Renderable K) :
      (task.announcement failure : Act M E K) = task'.announcement failure := by
    simp only [Task.announcement, Task.report, hl.name, hl.sink]
  cases h with
  | starts hworking => exact .starts hworking
  | polls hworking => exact .polls hworking
  | announces failure hpaying => exact .announces failure (hannounce failure ▸ hpaying)
  | renders failure hworking => exact hannounce failure ▸ .renders failure hworking
  | closes earlier hsettles hquiet hpaying =>
    exact .closes earlier (hsettles.later hl) hquiet hpaying

theorem inTurn (h : Tenure client t task findings acts control stack) : InTurn t stack := by
  cases h with
  | starts hworking => exact hworking.inTurn
  | polls hworking => exact hworking.inTurn
  | announces _ hpaying => exact hpaying.inTurn
  | renders _ hworking => exact hworking.inTurn
  | closes _ _ _ hpaying => exact hpaying.inTurn

/-- A step above the turn. -/
theorem within (h : Tenure client t task findings acts control stack) (hr : Rooted stack)
    (hm : w.move client n stack control = some m) (hs : Stacked stack)
    (hsecure : Thread.Secure ⟨n, control, stack⟩)
    (hwithin : ¬AtTurn t control stack) :
    Tenure client t task findings
      (acts ++ (Moment.bindingAct? t ⟨w, ⟨n, control, stack⟩⟩).toList) m.control m.stack := by
  have worked {stage : Stage K} (h : Working t stage control stack) :
      Working t stage m.control m.stack := by
    rcases h.step hm hs.seated with hworking | ⟨hstack, hreturn⟩
    · exact hworking
    · exact absurd ⟨⟨stage, [], hstack⟩, hreturn⟩ hwithin
  have paid {stage : Stage K} {all done : List (Act M E K)} (h : Paying t stage all done control stack)
      (hq : ∀ act ∈ all, act.IsQuiet) (hstage : Sheltered ([.turn t stage] : List (Frame M E K H))) :
      Paying t stage all (done ++ (Moment.bindingAct? t ⟨w, ⟨n, control, stack⟩⟩).toList) m.control
        m.stack := by
    rcases h.step hr hm hs hsecure hq hstage with hpaying | ⟨hstack, -, reply, rfl⟩
    · exact hpaying
    · exact absurd ⟨⟨stage, [], hstack⟩, trivial⟩ hwithin
  cases h with
  | starts hworking =>
    rw [hworking.bindingAct? hr]
    exact .starts (worked hworking)
  | polls hworking =>
    rw [hworking.bindingAct? hr]
    exact .polls (worked hworking)
  | announces failure hpaying =>
    refine .announces failure (paid hpaying ?_ (.announcing t _))
    simp [Task.announcement, Task.report, Act.IsQuiet]
  | renders failure hworking =>
    rw [hworking.bindingAct? hr]
    exact .renders failure (worked hworking)
  | closes earlier hsettles hquiet hpaying =>
    rw [List.append_assoc]
    exact .closes earlier hsettles hquiet (paid hpaying hquiet (.closing t _))

/-- The binding answers for the producer. -/
theorem of_close {ending : Ending M K} (earlier : List (Act M E K))
    (hs : Settles client t task findings ending.outcome (earlier ++ ending.acts client t task)) :
    Tenure client t task findings earlier (w.close client [] t task ending).control
      (w.close client [] t task ending).stack := by
  have hpaying : Paying t (.closing ending.outcome) (ending.acts client t task) []
      (w.close client [] t task ending).control (w.close client [] t task ending).stack :=
    .replied (List.nil_append _).symm _
  have hclosing := Tenure.closes earlier hs (quiet_closing task ending) hpaying
  rwa [List.append_nil] at hclosing

end Tenure

theorem Config.deadline_eq {config : Config} {limit : Duration} (h : config.deadline = some limit) :
    config.deadline = some config.timeout := by
  unfold deadline at h ⊢
  split at h
  · cases h
  · rename_i hzero
    exact if_neg hzero

/-- Its deadline is set when the producer is first asked. -/
theorem Task.Pending.asked (h : task.Pending) (clock : Nat) :
    Task.Pending { task with deadline :=
      task.deadline <|> task.config.deadline.map fun limit => clock + limit.millisUp } := by
  refine ⟨h.unsettled, ?_⟩
  intro hdeadline
  cases hset : task.deadline with
  | some time => exact h.timely (by simp [hset])
  | none =>
    cases hconfig : task.config.deadline with
    | some limit => exact hconfig ▸ Config.deadline_eq hconfig
    | none => simp [hset, hconfig] at hdeadline

theorem Task.Pending.run (h : task.Pending) : Task.Pending { task with state := .running } :=
  ⟨rfl, h.timely⟩

namespace World

theorem task_of_modify {change : Task K → Task K} (h : w'.tasks = w.tasks.modify t change)
    (ht : w.tasks[t]? = some task) : w'.tasks[t]? = some (change task) := by
  rw [h, List.getElem?_modify_eq, ht]
  rfl

/-- The producer is asked: that it is cancelled is the end of the task, else its code runs. -/
theorem Asked.upshot {producer : K} (h : Asked client w [] t task producer m)
    (ht : w.tasks[t]? = some task') (hsame : task' = { task with state := task'.state })
    (hp : task'.Pending) :
    ∃ task'', m.world.tasks[t]? = some task'' ∧
      Upshot client t task'' [] [] m.control m.stack := by
  have hlater : task.Later task' := by
    rw [hsame]
    exact ⟨rfl, rfl, rfl, rfl, id⟩
  cases h with
  | cancelled hcancelled =>
    refine ⟨task', ht, .goesOn hp ?_⟩
    exact (Tenure.of_close [] (.cancelled hcancelled)).later hlater
  | polls =>
    refine ⟨_, task_of_modify rfl ht, .goesOn ?_ (.polls (.runs ?_))⟩
    · have hdeadline : task'.deadline = task.deadline := by rw [hsame]
      have hconfig : task'.config = task.config := by rw [hsame]
      rw [← hdeadline, ← hconfig]
      exact hp.asked w.clock
    · exact Code.gives_bind _ fun _ => trivial

/-- A turn begins. -/
theorem Begun.upshot (h : Begun client w t m) (hm : m.stack ≠ []) (ht : w.tasks[t]? = some task)
    (hp : task.Pending) :
    ∃ task', m.world.tasks[t]? = some task' ∧
      Upshot client t task' [] [] m.control m.stack := by
  have hrun : (w.modifyTask t fun task => { task with state := .running }).tasks[t]? =
      some { task with state := .running } := by
    rw [modifyTask, List.getElem?_modify_eq, ht]
    rfl
  cases h with
  | passes => exact absurd rfl hm
  | starts ht' =>
    refine ⟨{ task with state := .running }, hrun, .goesOn hp.run ?_⟩
    exact .starts (.runs (Code.gives_bind _ fun _ => trivial))
  | asks ht' _ hasked =>
    cases ht.symm.trans ht'
    exact hasked.upshot hrun rfl hp.run

end World

/-- Something comes back to the turn. -/
theorem Tenure.at_turn {findings : List (Finding M K)} {acts : List (Act M E K)}
    (h : Tenure client t task findings acts control [.turn t stage]) (hc : control.IsReturn)
    (hturned : World.Turned client w t task stage control m) (ht : w.tasks[t]? = some task)
    (hp : task.Pending) (he : Moment.escapes t ⟨w, ⟨n, control, [.turn t stage]⟩⟩ = false) :
    ∃ task', m.world.tasks[t]? = some task' ∧
      Upshot client t task' (findings ++ (task.finds w.clock stage control).toList) acts m.control
        m.stack := by
  have escaped {payload : Payload} (hcontrol : control = .unwind payload) (hcode : stage.runsCode)
      (hset : ¬(stage.isAnswered ∧ task.config.answersPanics)) : False := by
    subst hcontrol
    rw [Moment.escapes_of_not_answered ht hcode hset] at he
    cases he
  -- what is found while the producer is asked, and while its failure is rendered
  have polled {finding : Finding M K} {ending : Ending M K}
      (hfinds : task.finds w.clock .polling control = some finding)
      (hending : finding.ending? task.config.timeout = some ending) :
      Settles client t task [finding] ending.outcome (ending.acts client t task) := by
    obtain ⟨hearly, hdeadline⟩ := Task.finds_polling hfinds
    exact settles_of_ending hending (fun hoverdue => hp.timely (hdeadline hoverdue)) hearly
  have rendered {finding : Finding M K} {ending : Ending M K} (failure : Renderable K)
      (hfinds : task.finds w.clock .rendering control = some finding)
      (hending : finding.ending? task.config.timeout = some ending) :
      Settles client t task [.returned (.error (.render failure)), finding] ending.outcome
        (task.announcement failure :: ending.acts client t task) :=
    settles_of_rendering failure hending (Task.finds_rendering hfinds)
  have closed {finding : Finding M K} {ending : Ending M K}
      (hfinds : task.finds w.clock stage control = some finding)
      (hs : Settles client t task (findings ++ [finding]) ending.outcome
        (acts ++ ending.acts client t task)) :
      ∃ task', (w.close client [] t task ending).world.tasks[t]? = some task' ∧
        Upshot client t task' (findings ++ (task.finds w.clock stage control).toList) acts
          (w.close client [] t task ending).control (w.close client [] t task ending).stack := by
    rw [hfinds]
    exact ⟨task, ht, .goesOn hp (.of_close acts hs)⟩
  cases h with
  | starts hworking =>
    obtain ⟨rfl, ⟨reply, rfl, hexpects⟩ | ⟨payload, rfl⟩⟩ := hworking.at_turn hc
    · cases hturned with
      | asks hasked => exact hasked.upshot ht rfl hp
      | closes hfinds => cases hfinds
      | strays _ hnot => exact absurd hexpects hnot
    · cases hturned with
      | closes hfinds => cases hfinds
      | escapes hset => exact (escaped rfl rfl hset).elim
  | polls hworking =>
    obtain ⟨rfl, ⟨reply, rfl, hexpects⟩ | ⟨payload, rfl⟩⟩ := hworking.at_turn hc
    · cases hturned with
      | parks _ htasks hdue =>
        rw [Task.finds, hdue]
        exact ⟨_, World.task_of_modify htasks ht, .waits ⟨rfl, hp.timely⟩⟩
      | announces failure =>
        refine ⟨task, ht, .goesOn hp (.announces failure ?_)⟩
        exact .replied (List.nil_append _).symm _
      | closes hfinds hending => exact closed hfinds (polled hfinds hending)
      | strays _ hnot => exact absurd hexpects hnot
    · cases hturned with
      | closes hfinds hending => exact closed hfinds (polled hfinds hending)
      | escapes hset => exact (escaped rfl rfl hset).elim
  | announces failure hpaying =>
    obtain ⟨rfl, rfl, reply, rfl⟩ := hpaying.at_turn
    cases hturned with
    | renders =>
      refine ⟨task, ht, .goesOn hp (.renders failure (.runs ?_))⟩
      exact Code.gives_bind _ fun _ => trivial
    | closes hfinds => cases hfinds
    | strays hcode => cases hcode
  | renders failure hworking =>
    obtain ⟨rfl, ⟨reply, rfl, hexpects⟩ | ⟨payload, rfl⟩⟩ := hworking.at_turn hc
    · cases hturned with
      | closes hfinds hending => exact closed hfinds (rendered failure hfinds hending)
      | strays _ hnot => exact absurd hexpects hnot
    · cases hturned with
      | closes hfinds hending => exact closed hfinds (rendered failure hfinds hending)
      | escapes hset => exact (escaped rfl rfl hset).elim
  | closes earlier hsettles hquiet hpaying =>
    obtain ⟨rfl, rfl, reply, rfl⟩ := hpaying.at_turn
    cases hturned with
    | closes hfinds => cases hfinds
    | concludes =>
      refine ⟨_, World.task_of_modify rfl ht, .ends rfl ?_⟩
      exact (List.append_nil findings).symm ▸ hsettles.later ⟨rfl, rfl, rfl, rfl, id⟩
    | strays hcode => cases hcode

end Exchange
