import Exchange.Proofs.Answers
import Exchange.Proofs.Sparing

/-!
Whether panics are answered. The setting of a binding is asked for when a panic comes back from the poll of its
producer or from the rendering of its failure, and never before; so two exchanges that differ in it have
the same course up to the first such panic. Where panics are not answered that one ends the task at once.
-/

namespace Exchange
set_option autoImplicit false

variable {M E K H : Type} {client : Client M E K H} {u v w w' x : World M E K H} {t n p : Nat}
  {thread : Thread M E K H}
variable {control : Control M E K H} {stack : List (Frame M E K H)} {m : Moment M E K H} {b : Bool}
variable {trail before after : List (Moment M E K H)} {task : Task K} {outcome : Outcome}

/-! ## One setting for another -/

/-- The exchange in which the task's binding answers panics, or does not. -/
def World.answering (t : Nat) (b : Bool) (w : World M E K H) : World M E K H :=
  w.modifyTask t fun task => { task with config := { task.config with answersPanics := b } }

def Moment.answering (t : Nat) (b : Bool) (m : Moment M E K H) : Moment M E K H :=
  ⟨m.world.answering t b, m.thread⟩

/-- A panic comes back from the task's producer, or from the rendering of its failure. -/
def Moment.faults (t : Nat) (m : Moment M E K H) : Bool :=
  match m.thread with
  | ⟨_, .unwind _, .turn u stage :: _⟩ => u = t && stage.isAnswered
  | _ => false

def Recast.answering (t : Nat) (b : Bool) : Recast M E K H :=
  { Recast.remaking id id with answers := fun u set => if u = t then b else set }

namespace World

theorem answering_eq : w.answering t b = w.recast (.answering t b) := by
  have htasks : w.tasks.modify t (fun task => { task with
      config := { task.config with answersPanics := b } }) =
      w.tasks.mapIdx (Recast.answering t b : Recast M E K H).taskAt := by
    apply List.ext_getElem?
    intro u
    rw [List.getElem?_modify, List.getElem?_mapIdx]
    congr 1
    funext task
    by_cases hu : t = u
    · simp [Recast.taskAt, Recast.answering, hu]
    · simp [Recast.taskAt, Recast.answering, hu, Ne.symm hu]
  simp only [answering, modifyTask, recast, htasks]
  simp [Recast.answering, Recast.remaking]

theorem answering_task? (h : w.tasks[t]? = some task) : (w.answering t b).tasks[t]? =
    some { task with config := { task.config with answersPanics := b } } := by
  simp [answering, modifyTask, h]

theorem answering_answering {c : Bool} : (w.answering t b).answering t c = w.answering t c := by
  simp only [answering, modifyTask, List.modify_modify_eq]
  rfl

theorem suits_answering (h : w.tasks[t]? = some task) : (Recast.answering t b).Suits w := by
  refine ⟨fun _ _ _ => rfl, fun _ _ => rfl, ?_⟩
  intro u hu
  have hlt : t < w.tasks.length := (List.getElem?_eq_some_iff.mp h).1
  funext set
  simp [Recast.answering, Nat.ne_of_gt (Nat.lt_of_lt_of_le hlt hu)]

theorem answering_plain : (Recast.answering t b : Recast M E K H).IsPlain := ⟨rfl, rfl⟩

/-- A step that no such panic calls for leads from the one exchange to the other. -/
theorem answering_step (h : w.tasks[t]? = some task) (ht : w.thread? n = some thread)
    (hf : Moment.faults t ⟨w, thread⟩ = false) (hs : w.step client n = some w') :
    (w.answering t b).step client n = some (w'.answering t b) := by
  obtain ⟨own, control, stack⟩ := thread
  obtain ⟨m, hm, -⟩ := move_of_step ht hs
  have hset (payload : Payload) (u : Nat) (stage : Stage K) (rest : List (Frame M E K H))
      (hcontrol : control = .unwind payload) (hstack : stack = .turn u stage :: rest)
      (hanswered : stage.isAnswered) : (Recast.answering t b : Recast M E K H).answers u = id := by
    subst hcontrol hstack
    have hu : u ≠ t := by
      rintro rfl
      simp [Moment.faults, hanswered] at hf
    funext set
    simp [Recast.answering, hu]
  have hmove : (w.recast (.answering t b)).move client n stack control =
      (w.move client n stack control).map (Move.recast (.answering t b)) :=
    recast_move (n := n) (suits_answering h) (.inl answering_plain) hset
  have hthread : (w.recast (.answering t b)).thread? n = some ⟨own, control, stack⟩ := by
    rw [recast_thread?, ht]
    rfl
  rw [hm, Option.map_some] at hmove
  rw [step_of_move ht hm, Option.some_inj] at hs
  rw [answering_eq, step_of_move hthread hmove, answering_eq, ← hs, recast_put rfl]
  rfl

/-- So does all that happens between two steps. -/
theorem answering_between (h : w.tasks[t]? = some task) (hb : Between client w w') :
    Between client (w.answering t b) (w'.answering t b) := by
  rw [answering_eq, answering_eq]
  exact recast_between (suits_answering h) hb

theorem answering_settled (hw : w.Settled) : (w.answering t b).Settled :=
  ⟨⟨⟨hw.orderly.nodup, hw.orderly.fresh⟩, hw.disciplined⟩, ⟨hw.rooted.last, hw.rooted.main⟩, hw.secure⟩

end World

/-- Without such panics a run leads from the one exchange to the other, too. -/
theorem Run.answering (run : Run client u trail w) (h : u.tasks[t]? = some task)
    (hf : ∀ m ∈ trail, m.faults t = false) :
    Run client (u.answering t b) (trail.map (Moment.answering t b)) (w.answering t b) := by
  induction run with
  | refl => exact .refl
  | @step trail w w' n thread run ht hs ih =>
    obtain ⟨task', htask', -⟩ := run.task_later h
    rw [List.map_append, List.map_singleton]
    exact (ih fun m hm => hf m (List.mem_append_left _ hm)).step ht
      (World.answering_step htask' ht (hf _ (List.mem_append_right _ List.mem_cons_self)) hs)
  | between run hb ih =>
    obtain ⟨task', htask', -⟩ := run.task_later h
    exact (ih hf).between (World.answering_between htask' hb)

/-! ## What the trails tell -/

/-- Both trails tell the same, the numbers of diagnostics included: the same threads take the same steps, on
the same points, and the bindings do the same. -/
structure Agree (second first : List (Moment M E K H)) : Prop where
  threads : second.map (·.thread) = first.map (·.thread)
  points : second.map (·.world.points) = first.map (·.world.points)
  history : ∀ p, history p second = history p first
  returns : returns second = returns first
  diagnoses : diagnoses second = diagnoses first
  bindingActs : ∀ t, bindingActs t second = bindingActs t first

theorem Agree.answering : Agree (trail.map (Moment.answering t b)) trail := by
  constructor
  · rw [List.map_map]
    rfl
  · rw [List.map_map]
    rfl
  · intro p
    simp only [Exchange.history, List.flatMap_map]
    refine List.flatMap_congr fun m _ => ?_
    have halike : Alike [⟨m.world.recast (.answering t b), m.thread⟩] [⟨m.world, m.thread⟩] :=
      .recast fun _ _ _ => rfl
    have hsame := halike.history p
    rw [← World.answering_eq, Exchange.history, Exchange.history, List.flatMap_singleton,
      List.flatMap_singleton] at hsame
    exact hsame
  · simp only [Exchange.returns, List.filterMap_map]
    rfl
  · simp only [Exchange.diagnoses, List.filterMap_map]
    rfl
  · intro u
    simp only [Exchange.bindingActs, List.filterMap_map]
    rfl

/-- The run is also one of the exchange with that setting, where it tells the same. -/
structure Shared (client : Client M E K H) (t : Nat) (b : Bool) (u : World M E K H)
    (trail : List (Moment M E K H)) (w : World M E K H) : Prop where
  run : Run client (u.answering t b) (trail.map (Moment.answering t b)) (w.answering t b)
  agree : Agree (trail.map (Moment.answering t b)) trail

/-! ## Panics that the setting is asked for -/

theorem Settles.of_renderingPanicked {found : List (Finding M K)} {acts : List (Act M E K)}
    {payload : Payload} (h : Settles client t task found outcome acts)
    (hmem : .renderingPanicked payload ∈ found) : outcome = .renderFailed ∧ ∃ failure, acts =
      [task.announcement failure,
        task.report .renderFailed (some (RenderingFailure.panicked payload.info).message),
        task.answer client.internalError] := by
  cases h with
  | renderFailed failure hun =>
    cases hun <;> simp at hmem
    subst hmem
    exact ⟨rfl, failure, rfl⟩
  | _ => simp at hmem

/-- A panic comes back to a turn: what the binding has done before, and the outcome and what is done for it
where panics are answered. -/
inductive Fault (client : Client M E K H) (task : Task K) (payload : Payload) :
    Stage K → List (Act M E K) → Outcome → List (Act M E K) → Prop
  | polled : Fault client task payload .polling [] .panicked
      [task.report .producerPanicked (some payload.info), task.answer client.internalError]
  | rendered (failure : Renderable K) : Fault client task payload .rendering [task.announcement failure]
      .renderFailed [task.report .renderFailed (some (RenderingFailure.panicked payload.info).message),
        task.answer client.internalError]

/-- The next step of the main thread, with either setting: the turn and the task are over with a panic, and all
else is as it was; or the turn goes on with what is to be done. -/
structure World.Parts (client : Client M E K H) (t : Nat) (task : Task K) (outcome : Outcome)
    (due : List (Act M E K)) (w : World M E K H) : Prop where
  ends : (w.answering t false).step client mainThread =
    some (((w.answering t false).modifyTask t fun task => { task with state := .over .panicked }).put mainThread
      (.resume .done) [])
  closes : (w.answering t true).step client mainThread =
    some ((w.answering t true).put mainThread (.resume .done)
      [.acts task.point due .done, .turn t (.closing outcome)])

section
variable {payload : Payload} {stage : Stage K} {found : List (Finding M K)} {done due acts : List (Act M E K)}

theorem Tenure.fault (h : Tenure client t task found done (.unwind payload) [.turn t stage])
    (hs : stage.isAnswered) : ∃ outcome due, Fault client task payload stage done outcome due := by
  cases h with
  | starts hworking =>
    obtain ⟨rfl, -⟩ := hworking.at_turn trivial
    cases hs
  | polls hworking =>
    obtain ⟨rfl, -⟩ := hworking.at_turn trivial
    exact ⟨_, _, .polled⟩
  | renders failure hworking =>
    obtain ⟨rfl, -⟩ := hworking.at_turn trivial
    exact ⟨_, _, .rendered failure⟩
  | announces _ hpaying =>
    obtain ⟨-, -, reply, hreply⟩ := hpaying.at_turn
    cases hreply
  | closes _ _ _ hpaying =>
    obtain ⟨-, -, reply, hreply⟩ := hpaying.at_turn
    cases hreply

namespace Fault

theorem finds (h : Fault client task payload stage done outcome due) (clock : Nat) :
    ∃ finding, task.finds clock stage (.unwind payload : Control M E K H) = some finding := by
  cases h <;> exact ⟨_, rfl⟩

theorem runsCode (h : Fault client task payload stage done outcome due) : stage.runsCode := by
  cases h <;> rfl

theorem parts (h : Fault client task payload stage done outcome due) (ht : w.tasks[t]? = some task)
    (hthread : w.thread? World.mainThread = some ⟨World.mainThread, .unwind payload, [.turn t stage]⟩) :
    w.Parts client t task outcome due := by
  constructor
  · refine World.step_of_move (m := (w.answering t false).conclude [] t .panicked) hthread ?_
    simp only [World.move, World.unwind, World.answering_task? ht]
    cases h <;> rfl
  · refine World.step_of_move (m := .acts (w.answering t true) [.turn t (.closing outcome)] task.point due
      .done) hthread ?_
    simp only [World.move, World.unwind, World.answering_task? ht]
    cases h <;> rfl

/-- In the end that is the outcome, and that has been done. -/
theorem settles (h : Fault client task payload stage done outcome due) {task' : Task K}
    {outcome' : Outcome} {clock : Nat} (hl : task.Later task')
    (hfound : ∀ finding ∈ task.finds clock stage (.unwind payload : Control M E K H), finding ∈ found)
    (hs : Settles client t task' found outcome' (done ++ acts)) : outcome' = outcome ∧ acts = due := by
  have hreport (kind : Kind) (reason : Option String) :
      (task.report kind reason : Act M E K) = task'.report kind reason := by
    simp only [Task.report, hl.name, hl.sink]
  have hanswer : (task.answer client.internalError : Act M E K) = task'.answer client.internalError := by
    simp only [Task.answer, hl.point]
  cases h with
  | polled =>
    obtain ⟨rfl, hacts⟩ := hs.of_panicked (hfound _ rfl)
    rw [hreport, hanswer]
    exact ⟨rfl, hacts⟩
  | rendered failure =>
    obtain ⟨rfl, failure', hacts⟩ := hs.of_renderingPanicked (hfound _ rfl)
    rw [hreport, hanswer]
    exact ⟨rfl, (List.cons.inj hacts).2⟩

end Fault
end

/-! ## Runs from a binding -/

/-- Of a task that is over nothing more is found, and its binding does no more. -/
theorem Run.stays_closed (run : Run client u trail w) (hu : u.Settled) (hs : SinksReturn trail)
    (h : u.Closed t task outcome) : (∃ task', w.Closed t task' outcome) ∧ bindingActs t trail = [] ∧
      ∀ m ∈ trail, ¬InTurn t m.thread.stack := by
  induction run with
  | refl => exact ⟨⟨task, h⟩, rfl, nofun⟩
  | @step trail w w' n thread before ht hstep ih =>
    obtain ⟨hs, -⟩ := sinksReturn_append.mp hs
    obtain ⟨⟨task', hclosed⟩, hacts, hturns⟩ := ih hs
    obtain ⟨⟨task'', hclosed', -⟩, -, hact⟩ := hclosed.of_step (before.settled hu hs) ht hstep
    refine ⟨⟨task'', hclosed'⟩, ?_, ?_⟩
    · rw [bindingActs_snoc, hacts, hact]
      rfl
    · intro m hm
      rcases List.mem_append.mp hm with hm | hm
      · exact hturns m hm
      · rw [List.mem_singleton.mp hm]
        exact hclosed.unattended thread (World.mem_of_thread? ht)
  | between before hb ih =>
    obtain ⟨⟨task', hclosed⟩, hrest⟩ := ih hs
    exact ⟨⟨task', hclosed.of_between hb⟩, hrest⟩

/-- A thread that is in the middle of the task's turn is where the account says, and no panic has escaped. -/
theorem Run.tenure (run : Run client u trail w) (hu : u.Settled) (hbegin : Account client t u [] [])
    (hs : SinksReturn trail) (hmem : thread ∈ w.threads) (hturn : InTurn t thread.stack) :
    (∀ m ∈ trail, m.escapes t = false) ∧ ∃ task, w.tasks[t]? = some task ∧
      Tenure client t task (findings t trail) (bindingActs t trail) thread.control thread.stack := by
  have he : ∀ m ∈ trail, m.escapes t = false := by
    intro m hm
    rw [Bool.eq_false_iff]
    intro hescapes
    obtain ⟨task, hclosed, -⟩ := run.lets_escape hu hbegin hs ⟨m, hm, hescapes⟩
    exact hclosed.unattended thread hmem hturn
  have hw := run.settled hu hs
  have haccount := run.accounts hu hbegin hs he
  refine ⟨he, ?_⟩
  generalize findings t trail = found, bindingActs t trail = acts at haccount
  cases haccount with
  | before _ hnone => exact absurd hturn (hnone thread hmem)
  | after _ _ _ hnone => exact absurd hturn (hnone thread hmem)
  | @during task other _ _ ht _ hother htenure =>
    obtain rfl := Account.same_thread hw.orderly hw.rooted hother hmem htenure.inTurn hturn
    exact ⟨task, ht, htenure⟩

/-- The panic comes back to the turn on the main thread, and nothing is below. -/
theorem Moment.faults_some (h : Moment.faults t ⟨w, thread⟩) (hr : w.Rooted) (hmem : thread ∈ w.threads) :
    ∃ payload stage, thread = ⟨World.mainThread, .unwind payload, [.turn t stage]⟩ ∧ stage.isAnswered := by
  obtain ⟨id, control, stack⟩ := thread
  unfold faults at h
  split at h
  · rename_i u stage rest hthread
    cases hthread
    obtain ⟨rfl, hanswered⟩ : u = t ∧ stage.isAnswered := by simpa using h
    obtain rfl : rest = [] := (hr.last _ hmem).1 rfl
    obtain rfl : id = World.mainThread := hr.main _ hmem u ⟨stage, List.mem_cons_self⟩
    exact ⟨_, stage, rfl, hanswered⟩
  · cases h

/-- Where a binding is about to be made, no task is yet accounted for. -/
theorem Run.unattended_new {host : H} (run : Run client (.initial host) trail w) (hs : SinksReturn trail)
    (ht : w.tasks[t]? = none) : w.Unattended t := by
  have he : ∀ m ∈ trail, m.escapes t = false := by
    intro m hm
    rw [Bool.eq_false_iff]
    intro hescapes
    obtain ⟨task, hclosed, -⟩ := run.escaped hs ⟨m, hm, hescapes⟩
    exact nomatch ht.symm.trans hclosed.get
  have haccount := run.account hs he
  generalize findings t trail = found, bindingActs t trail = acts at haccount
  cases haccount with
  | before _ hnone => exact hnone
  | during htask => exact nomatch ht.symm.trans htask
  | after htask => exact nomatch ht.symm.trans htask

section
variable {payload : Payload} {stage : Stage K} {due : List (Act M E K)}
variable (run : Run client u (before ++ ⟨x, ⟨n, .unwind payload, [.turn t stage]⟩⟩ :: after) v)
variable (hu : u.Settled) (hbegin : Account client t u [] [])
variable (hs : SinksReturn (before ++ ⟨x, ⟨n, .unwind payload, [.turn t stage]⟩⟩ :: after))
variable (ht : x.tasks[t]? = some task)
variable (fault : Fault client task payload stage (bindingActs t before) outcome due)
include run hu hbegin hs ht fault

/-- Where panics are not answered, nothing more is done for the task, and it is over with a panic. -/
theorem Run.fault_lost (hset : task.config.answersPanics = false) :
    bindingActs t (⟨x, ⟨n, .unwind payload, [.turn t stage]⟩⟩ :: after) = [] ∧
      (∀ m ∈ after, ¬InTurn t m.thread.stack) ∧ ∃ task', v.Closed t task' .panicked := by
  obtain ⟨run₁, n', y, hthread, hstep, run₂⟩ := run.split rfl
  obtain ⟨hs₁, hs₂⟩ := sinksReturn_append.mp hs
  rw [← List.singleton_append, sinksReturn_append] at hs₂
  have hx : x.Settled := run₁.settled hu hs₁
  have hmem := World.mem_of_thread? hthread
  obtain ⟨he, -⟩ := run₁.tenure hu hbegin hs₁ hmem ⟨stage, List.mem_cons_self⟩
  have hescapes : Moment.escapes t ⟨x, ⟨n, .unwind payload, [.turn t stage]⟩⟩ :=
    Moment.escapes_of_not_answered ht fault.runsCode (by simp [hset])
  have hreturns := hs₂.1 _ List.mem_cons_self
  obtain ⟨task', hclosed, -⟩ := (run₁.accounts hu hbegin hs₁ he).escaped hx hthread hstep hreturns hescapes
  obtain ⟨hlast, hacts, hturns⟩ := run₂.stays_closed (hx.of_step hthread hstep hreturns) hs₂.2 hclosed
  refine ⟨?_, hturns, hlast⟩
  rw [← List.singleton_append, bindingActs_append, hacts]
  rfl

/-- Where they are answered, that is done by the time the task is over. -/
theorem Run.fault_answered (hset : task.config.answersPanics) {task' : Task K} {outcome' : Outcome}
    (ht' : v.tasks[t]? = some task') (hover : task'.state.outcome? = some outcome') :
    outcome' = outcome ∧
      bindingActs t (⟨x, ⟨n, .unwind payload, [.turn t stage]⟩⟩ :: after) = due := by
  obtain ⟨-, n', y, hthread, hstep, run₂⟩ := run.split rfl
  obtain ⟨task'', htask'', hlater⟩ := (Run.step .refl hthread hstep |>.trans run₂).task_later ht
  cases ht'.symm.trans htask''
  have hfound : ∀ finding ∈ task.finds x.clock stage (.unwind payload : Control M E K H), finding ∈
      findings t (before ++ ⟨x, ⟨n, .unwind payload, [.turn t stage]⟩⟩ :: after) := by
    intro finding hfinds
    refine List.mem_filterMap.mpr ⟨_, List.mem_append_right before List.mem_cons_self, ?_⟩
    rw [Moment.finding?_turn ht]
    exact hfinds
  have he : ∀ m ∈ before ++ ⟨x, ⟨n, .unwind payload, [.turn t stage]⟩⟩ :: after, m.escapes t = false := by
    intro m hm
    rw [Bool.eq_false_iff]
    intro hescapes
    obtain ⟨last, hclosed, -, hnone⟩ := run.lets_escape hu hbegin hs ⟨m, hm, hescapes⟩
    cases ht'.symm.trans hclosed.get
    obtain ⟨hnothing, -⟩ := hnone (hlater.config ▸ hset)
    rw [hnothing] at hfound
    obtain ⟨finding, hfinds⟩ := fault.finds x.clock
    exact nomatch hfound finding hfinds
  have hsettles := (run.accounts hu hbegin hs he).settles ht' hover
  rw [bindingActs_append] at hsettles
  exact fault.settles hlater hfound hsettles

end

section
variable {name : String} {producer : K} {config : Config} {sink : Option (Sink K)} {point : Point M E K}

/-- The binding, made with either setting, leads to exchanges that differ in nothing else. -/
theorem World.bind_step (client : Client M E K H) (producer : K) (config : Config) (ht : w.thread? n = some ⟨n, control, stack⟩)
    (hp : w.points[p]? = some point) : ∃ u : World M E K H, ∀ b,
      (w.put n (.perform (.bind p name producer { config with answersPanics := b } sink)) stack).step client n =
        some (u.answering w.tasks.length b) ∧
      (u.answering w.tasks.length b).tasks = w.tasks ++ [
        { name, point := p, config := { config with answersPanics := b }, sink := sink.getD point.sink,
          state := .unborn producer }] := by
  let task (config : Config) : Task K :=
    { name, point := p, config, sink := sink.getD point.sink, state := .unborn producer }
  let acts (config : Config) : List (Frame M E K H) := (w.bind stack p point name producer config sink).stack
  have hlast (b : Bool) : (({ w with tasks := w.tasks ++ [task config] }).put n (.resume .done)
      (acts config)).answering w.tasks.length b =
      ({ w with tasks := w.tasks ++ [task { config with answersPanics := b }] }).put n (.resume .done)
        (acts config) := by
    simp only [answering, modifyTask, put, task]
    rw [List.modify_eq_take_cons_drop (by simp)]
    simp
  refine ⟨_, fun b => ⟨?_, congrArg World.tasks (hlast b)⟩⟩
  let bind (b : Bool) : Control M E K H :=
    .perform (.bind p name producer { config with answersPanics := b } sink)
  have hthread : (w.put n (bind b) stack).thread? n = some ⟨n, bind b, stack⟩ := thread?_put (by simp [ht])
  have hmove : (w.put n (bind b) stack).move client n stack (bind b) = some
      ((w.put n (bind b) stack).bind stack p point name producer { config with answersPanics := b } sink) := by
    have hpoint : (w.put n (bind b) stack).points[p]? = some point := hp
    simp only [World.move, bind, perform]
    rw [hpoint]
  rw [hlast b, step_of_move hthread hmove]
  have hput : (({ w with tasks := w.tasks ++ [task { config with answersPanics := b }] }).put n (bind b) stack).put
      n (.resume .done) (acts config) = _ := put_put
  exact congrArg some hput

/-- Two bindings that are made at the same moment of a run, one that answers panics and one that does not, with
settings that are the same else. As long as no panic comes back from the producer or from the rendering of
its failure a run of the one is a run of the other, and the trails tell the same. Where one does, the other
has come to the same panic in the same way. The binding that does not answer panics lets it end the task: the
outcome is a panic, and nothing more is done. The one that does goes on to a report and the internal error, and
the outcome tells who has panicked. -/
theorem settings_differ_at_panics_only {host : H} (run : Run client (.initial host) trail w)
    (hs : SinksReturn trail)
    (ht : w.thread? n = some ⟨n, .perform (.bind p name producer config sink), stack⟩)
    (hp : w.points[p]? = some point) :
    ∃ (u : World M E K H) (t : Nat),
      t = w.tasks.length ∧
      (∀ b, (w.put n (.perform (.bind p name producer { config with answersPanics := b } sink)) stack).step
          client n = some (u.answering t b) ∧
        (u.answering t b).tasks = w.tasks ++ [
          { name, point := p, config := { config with answersPanics := b }, sink := sink.getD point.sink,
            state := .unborn producer }]) ∧
      ∀ b during v, Run client (u.answering t b) during v → SinksReturn during →
        ((∀ m ∈ during, m.faults t = false) → Shared client t (!b) u during v) ∧
        ∀ before m after, during = before ++ m :: after →
          (∀ m ∈ before, m.faults t = false) → m.faults t →
          Shared client t (!b) u before m.world ∧
          ∃ task payload stage outcome due, m.world.tasks[t]? = some task ∧
            m.thread = ⟨World.mainThread, .unwind payload, [.turn t stage]⟩ ∧
            Fault client task payload stage (bindingActs t before) outcome due ∧
            m.world.Parts client t task outcome due ∧
            (b = false → bindingActs t (m :: after) = [] ∧
              (∀ m ∈ after, ¬InTurn t m.thread.stack) ∧
              ∃ task', v.tasks[t]? = some task' ∧ task'.state.outcome? = some .panicked) ∧
            (b = true → ∀ task' outcome', v.tasks[t]? = some task' →
              task'.state.outcome? = some outcome' →
              outcome' = outcome ∧ bindingActs t (m :: after) = due) := by
  obtain ⟨u, hu⟩ := World.bind_step client producer config ht hp
  refine ⟨u, w.tasks.length, rfl, hu, ?_⟩
  generalize hnew : w.tasks.length = t at hu ⊢
  -- both bindings begin where nothing has been found or done
  have hw := run.settled (World.initial_settled host) hs
  have hown : w.step client n = some (u.answering t config.answersPanics) := by
    rw [← (hu config.answersPanics).1, World.put_self hw.orderly ht]
  have hsettled (b : Bool) : (u.answering t b).Settled := by
    rw [← World.answering_answering]
    exact World.answering_settled (hw.of_step ht hown rfl)
  have hfresh : w.Unattended t := run.unattended_new hs (List.getElem?_eq_none (Nat.le_of_eq hnew))
  have hunattended := (hfresh.of_step hw.orderly hw.rooted ht hown).1
  have htask (b : Bool) : (u.answering t b).tasks[t]? = some
      { name, point := p, config := { config with answersPanics := b }, sink := sink.getD point.sink,
        state := .unborn producer } := by
    rw [(hu b).2, ← hnew, List.getElem?_concat_length]
  have hbegin (b : Bool) : Account client t (u.answering t b) [] [] := by
    refine .before ?_ hunattended
    intro task hget
    cases hget.symm.trans (htask b)
    exact ⟨rfl, nofun⟩
  intro b during v hrun hreturns
  have carried {trail : List (Moment M E K H)} {x : World M E K H} (run : Run client (u.answering t b) trail x)
      (hf : ∀ m ∈ trail, m.faults t = false) :
      Shared client t (!b) u trail x := by
    refine ⟨?_, .answering⟩
    rw [← World.answering_answering (w := u)]
    exact run.answering (htask b) hf
  refine ⟨carried hrun, ?_⟩
  rintro before ⟨x, thread⟩ after rfl hf hfault
  obtain ⟨run₁, n', y, hthread, hstep, -⟩ := hrun.split rfl
  obtain ⟨hs₁, -⟩ := sinksReturn_append.mp hreturns
  have hmem := World.mem_of_thread? hthread
  obtain ⟨payload, stage, rfl, hanswered⟩ :=
    Moment.faults_some hfault (run₁.settled (hsettled b) hs₁).rooted hmem
  obtain rfl : World.mainThread = n' := World.id_of_thread? hthread
  obtain ⟨-, task, hget, htenure⟩ :=
    run₁.tenure (hsettled b) (hbegin b) hs₁ hmem ⟨stage, List.mem_cons_self⟩
  obtain ⟨outcome, due, fault⟩ := htenure.fault hanswered
  obtain ⟨task', hget', hlater⟩ := run₁.task_later (htask b)
  cases hget.symm.trans hget'
  have hset : task.config.answersPanics = b := hlater.config ▸ rfl
  refine ⟨carried run₁ hf, task, payload, stage, outcome, due, hget, rfl, fault,
    fault.parts hget hthread, ?_, ?_⟩
  · rintro rfl
    obtain ⟨hacts, hturns, task', hclosed⟩ :=
      hrun.fault_lost (hsettled false) (hbegin false) hreturns hget fault hset
    exact ⟨hacts, hturns, task', hclosed.get, by rw [hclosed.state]; rfl⟩
  · rintro rfl task' outcome' hlast hover
    exact hrun.fault_answered (hsettled true) (hbegin true) hreturns hget fault hset hlast hover

end

/-- A producer panics when it is asked. If its panics are answered that is reported and the internal error
pushed; if not, the exchange comes to the same panic, and then the task is over. -/
theorem settings_differ_at_panics_only_faltering :
    let past := World.runCalls falteringClient () [.create "request" .recorder, .register 0 .active true,
      .bind 0 "producer" true {} none] 7
    let bound := (past.2.trace falteringClient 1).2
    let made := bound.trace falteringClient 40
    let turn := made.2.turnTrace falteringClient 60
    ∃ (u x : World Unit Unit Bool Unit) (before : List (Moment Unit Unit Bool Unit)),
      bound = u.answering 0 true ∧
      Run falteringClient (u.answering 0 false) before (x.answering 0 false) ∧
      (x.answering 0 false).step falteringClient World.mainThread =
        some (((x.answering 0 false).modifyTask 0 fun task => { task with state := .over .panicked }).put
          World.mainThread (.resume .done) []) ∧
      bindingActs 0 (turn.1.drop 3) = [.report .recorder .producerPanicked (some "producer") (some "lost"),
        .call (.push 0 (.ofResponse () true))] := by
  intro past bound made turn
  have run : Run falteringClient (.initial ()) past.1 past.2 := World.run_runCalls _ _ _ _
  have hbinds : past.2.thread? 0 =
      some ⟨0, .perform (.bind 0 "producer" true {} none), [.caller _]⟩ := rfl
  have hpoint : past.2.points[0]?.map (·.sink) = some .recorder := rfl
  obtain ⟨point, hpoint, hsink⟩ := Option.map_eq_some_iff.mp hpoint
  obtain ⟨u, t, ht, hu, hruns⟩ := settings_differ_at_panics_only run (by decide) hbinds hpoint
  obtain rfl : t = 0 := ht
  have hstep : past.2.step falteringClient 0 = some bound := rfl
  have hsame : bound = u.answering 0 true := by
    have hput := (hu true).1
    rw [World.put_self (run.sound (World.initial_sound ()) (by decide)).orderly hbinds, hstep] at hput
    exact Option.some.inj hput
  have hlater : Run falteringClient (u.answering 0 true) (made.1 ++ turn.1) turn.2 := by
    rw [← hsame]
    exact (World.run_trace falteringClient 40 bound).trans (World.run_turnTrace falteringClient 60 (by decide))
  obtain ⟨-, hfaults⟩ := hruns true _ _ hlater (by decide)
  have hfault : turn.1[3]?.map (Moment.faults 0) = some true := by decide
  have hsaid : turn.1[3]?.map (fun m => m.thread.control.result?.map fun
      | .error payload => payload.info
      | .ok _ => "") = some (some "lost") := by decide
  obtain ⟨m, hm, hfault⟩ := Option.map_eq_some_iff.mp hfault
  rw [hm, Option.map_some, Option.some_inj] at hsaid
  obtain ⟨hlength, hat⟩ := List.getElem?_eq_some_iff.mp hm
  have hparts : made.1 ++ turn.1 = made.1 ++ turn.1.take 3 ++ m :: turn.1.drop 4 := by
    rw [List.append_assoc, ← hat, List.getElem_cons_drop, List.take_append_drop]
  obtain ⟨hshared, task, payload, stage, outcome, due, htask, hthread, fault, hsplit, -, hdue⟩ :=
    hfaults _ _ _ hparts (by decide) hfault
  refine ⟨u, m.world, _, hsame, hshared.run, hsplit.ends, ?_⟩
  have hover : (turn.2.tasks[0]?.bind fun task => task.state.outcome?) = some .panicked := by decide
  obtain ⟨task', hlast, hover⟩ := Option.bind_eq_some_iff.mp hover
  obtain ⟨rfl, hacts⟩ := hdue rfl task' _ hlast hover
  have hnew : (u.answering 0 true).tasks[0]? = some
      { name := "producer", point := 0, config := {}, sink := point.sink, state := .unborn true } := by
    rw [(hu true).2]
    rfl
  obtain ⟨task'', htask'', hnamed⟩ := (hlater.split hparts).1.task_later hnew
  cases htask.symm.trans htask''
  rw [hthread] at hsaid
  replace hsaid : payload.info = "lost" := Option.some.inj hsaid
  have hrest : turn.1.drop 3 = m :: turn.1.drop 4 := by
    rw [← hat, List.getElem_cons_drop]
  rw [hrest, hacts]
  generalize bindingActs 0 (made.1 ++ turn.1.take 3) = done at fault
  cases fault
  simp only [Task.report, Task.answer, hnamed.name, hnamed.sink, hnamed.point, hsink, hsaid]

end Exchange
