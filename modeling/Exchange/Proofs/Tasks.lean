import Exchange.Proofs.Threads

/-!
What becomes of tasks. A step adds a task, or changes one: it is cancelled, spawned, or has its turn.
All that a task was bound with stays as it is, and a task that is cancelled stays cancelled.
-/

namespace Exchange
set_option autoImplicit false

variable {M E K H : Type} {client : Client M E K H} {w w' : World M E K H} {t n : Nat}
  {thread : Thread M E K H}
variable {control : Control M E K H} {stack : List (Frame M E K H)} {m : Move M E K H}
variable {task task' : Task K} {tasks : List (Task K)}

namespace Task

/-- A task whose binding is under way. -/
def bound (p : Nat) (name : String) (producer : K) (config : Config) (sink : Sink K) : Task K :=
  { name, point := p, config, sink, state := .unborn producer }

def spawn (task : Task K) : Task K :=
  match task.state with
  | .unborn producer => { task with state := .fresh producer }
  | _ => task

/-- It is the same task: what it was bound with has not changed, nor has it been cancelled since. -/
structure Same (task task' : Task K) : Prop where
  name : task'.name = task.name
  point : task'.point = task.point
  config : task'.config = task.config
  sink : task'.sink = task.sink
  cancelled : task'.cancelled = task.cancelled

/-- The same task at a later time. -/
structure Later (task task' : Task K) : Prop where
  name : task'.name = task.name
  point : task'.point = task.point
  config : task'.config = task.config
  sink : task'.sink = task.sink
  cancelled : task.cancelled → task'.cancelled

theorem Same.later (h : Same task task') : Later task task' :=
  ⟨h.name, h.point, h.config, h.sink, fun hc => h.cancelled ▸ hc⟩

theorem Later.refl (task : Task K) : Later task task := ⟨rfl, rfl, rfl, rfl, id⟩

theorem Later.trans {task'' : Task K} (h : Later task task') (h' : Later task' task'') :
    Later task task'' :=
  ⟨h'.name.trans h.name, h'.point.trans h.point, h'.config.trans h.config, h'.sink.trans h.sink,
    fun hc => h'.cancelled (h.cancelled hc)⟩

theorem same_spawn (task : Task K) : Same task task.spawn := by
  unfold spawn
  split <;> constructor <;> rfl

theorem later_cancel (task : Task K) : Later task task.cancel := ⟨rfl, rfl, rfl, rfl, fun _ => rfl⟩

end Task

/-- The task is cancelled by the step. -/
def Control.cancels (t : Nat) : Control M E K H → Bool
  | .perform (.cancel u) | .act (.cancel u) | .act (.notify _ (.cancel u)) => u = t
  | _ => false

/-- What a step does to the tasks. -/
inductive TaskChange (w : World M E K H) :
    Control M E K H → List (Frame M E K H) → List (Task K) → Prop
  | rests {control : Control M E K H} {stack : List (Frame M E K H)} :
      TaskChange w control stack w.tasks
  | binds {p point name producer config sink} {stack : List (Frame M E K H)} :
      w.points[p]? = some point →
      TaskChange w (.perform (.bind p name producer config sink)) stack
        (w.tasks ++ [.bound p name producer config (sink.getD point.sink)])
  | cancels {t : Nat} {control : Control M E K H} {stack : List (Frame M E K H)} :
      control.cancels t →
      TaskChange w control stack (w.tasks.modify t Task.cancel)
  | spawns {t : Nat} {stack : List (Frame M E K H)} :
      TaskChange w (.act (.spawn t)) stack (w.tasks.modify t Task.spawn)
  | turns {t stage} {control : Control M E K H} {rest : List (Frame M E K H)}
      (change : Task K → Task K) : control.IsReturn → (∀ task, Task.Same task (change task)) →
      TaskChange w control (.turn t stage :: rest) (w.tasks.modify t change)

namespace World

/-- A turn changes nothing of its task but how far it has come. -/
def TurnsTasks (w : World M E K H) (t : Nat) (w' : World M E K H) : Prop :=
  ∃ change : Task K → Task K, w'.tasks = w.tasks.modify t change ∧ ∀ task, Task.Same task (change task)

theorem turnsTasks_same (h : w'.tasks = w.tasks) : TurnsTasks w t w' :=
  ⟨id, by simp [h], fun _ => ⟨rfl, rfl, rfl, rfl, rfl⟩⟩

theorem turnsTasks_modify {change : Task K → Task K} (h : ∀ task, Task.Same task (change task)) :
    TurnsTasks w t (w.modifyTask t change) := ⟨change, rfl, h⟩

theorem ask_tasks (task : Task K) (producer : K) :
    TurnsTasks w t (w.ask client stack t task producer).world := by
  unfold ask
  split
  · exact turnsTasks_same rfl
  · exact turnsTasks_modify fun _ => ⟨rfl, rfl, rfl, rfl, rfl⟩

theorem park_tasks (task : Task K) (wake : Wake) (rest : K) :
    TurnsTasks w t (w.park client stack t task wake rest).world := by
  unfold park
  split
  · exact turnsTasks_same rfl
  · dsimp only [Move.answer]
    split
    · refine ⟨fun task => { task with state := .parked rest wake }, tasks_wake, ?_⟩
      intro task
      exact ⟨rfl, rfl, rfl, rfl, rfl⟩
    · exact turnsTasks_modify fun _ => ⟨rfl, rfl, rfl, rfl, rfl⟩

theorem conclude_tasks (outcome : Outcome) :
    TurnsTasks w t (w.conclude stack t outcome).world :=
  turnsTasks_modify fun _ => ⟨rfl, rfl, rfl, rfl, rfl⟩

theorem resumeTurn_tasks (task : Task K) (stage : Stage K) (reply : Reply M K) :
    TurnsTasks w t (w.resumeTurn client stack t task stage reply).world := by
  unfold resumeTurn
  split
  · exact ask_tasks _ _
  · exact park_tasks _ _ _
  · exact turnsTasks_same rfl
  · exact turnsTasks_same rfl
  · exact turnsTasks_same rfl
  · exact turnsTasks_same rfl
  · exact turnsTasks_same rfl
  · exact turnsTasks_same rfl
  · exact conclude_tasks _
  · exact conclude_tasks _

theorem unwindTurn_tasks (task : Task K) (stage : Stage K) (payload : Payload) :
    TurnsTasks w t (w.unwindTurn client stack t task stage payload).world := by
  unfold unwindTurn
  split
  · exact turnsTasks_same rfl
  · exact turnsTasks_same rfl
  · exact conclude_tasks _

theorem TurnsTasks.change {w' : World M E K H} {rest : List (Frame M E K H)} {stage : Stage K}
    (h : TurnsTasks w t w') (hc : control.IsReturn) :
    TaskChange w control (.turn t stage :: rest) w'.tasks := by
  obtain ⟨change, htasks, hsame⟩ := h
  rw [htasks]
  exact .turns change hc hsame

section Calls
variable {p : Nat} {point : Point M E K}

theorem register_tasks {interest : Interest} {code : K}
    (h : w.register n stack p point interest code = some m) : m.world.tasks = w.tasks := by
  unfold register at h
  repeat' split at h
  all_goals cases h
  all_goals rfl

theorem unregister_tasks {id : Nat} (h : w.unregister n stack p point id = some m) :
    m.world.tasks = w.tasks := by
  unfold unregister at h
  dsimp only at h
  repeat' split at h
  all_goals cases h
  all_goals rfl

theorem atEnd_tasks {notice : Notice K} (h : w.atEnd n stack p point notice = some m) :
    m.world.tasks = w.tasks := by
  unfold atEnd at h
  dsimp only at h
  repeat' split at h
  all_goals cases h
  all_goals rfl

theorem push_tasks {event : Event M E} (h : w.push n stack p point event = some m) :
    m.world.tasks = w.tasks := by
  unfold push at h
  repeat' split at h
  all_goals cases h
  all_goals rfl

theorem poke_tasks : (w.poke stack p point).world.tasks = w.tasks := by
  unfold poke
  repeat' split
  all_goals rfl

end Calls

theorem perform_tasks {op : Op M E K} (hm : w.perform client n stack op = some m) :
    TaskChange w (.perform op) stack m.world.tasks := by
  have same (h : m.world.tasks = w.tasks) : TaskChange w (.perform op) stack m.world.tasks := by
    rw [h]
    exact .rests
  cases op <;> simp only [perform] at hm
  case bind =>
    split at hm
    · rename_i hp
      cases hm
      exact .binds hp
    · cases hm
      exact .rests
  case cancel =>
    cases hm
    exact tasks_cancel ▸ .cancels (by simp [Control.cancels])
  case register =>
    split at hm
    · exact same (register_tasks hm)
    · cases hm
      exact .rests
  case unregister =>
    split at hm
    · split at hm
      · exact same (unregister_tasks hm)
      · cases hm
        exact .rests
    · cases hm
      exact .rests
  case atEnd =>
    split at hm
    · exact same (atEnd_tasks hm)
    · cases hm
      exact .rests
  case push =>
    split at hm
    · exact same (push_tasks hm)
    · cases hm
      exact .rests
  case poke =>
    split at hm
    · cases hm
      exact same poke_tasks
    · cases hm
      exact .rests
  case emit =>
    split at hm
    · cases hm
      exact .rests
    · cases hm
      exact .rests
  case inspect =>
    split at hm
    · cases hm
      exact .rests
    · cases hm
      exact .rests
  all_goals
    cases hm
    exact .rests

theorem act_tasks (due : Act M E K) :
    TaskChange w (.act due) stack (w.act client stack due).world.tasks := by
  cases due with
  | notify ticket notice =>
    cases notice with
    | cancel t => exact tasks_cancel (t := t) ▸ .cancels (by simp [Control.cancels])
    | run code => exact .rests
  | cancel t => exact tasks_cancel (t := t) ▸ .cancels (by simp [Control.cancels])
  | spawn t => exact .spawns
  | _ => exact .rests

theorem serve_tasks {p : Nat} {point : Point M E K} :
    (w.serve n stack p point).world.tasks = w.tasks := by
  unfold serve
  dsimp only
  repeat' split
  all_goals rfl

theorem resume_tasks (reply : Reply M K) (frame : Frame M E K H) :
    TaskChange w (.resume reply) (frame :: stack)
      (w.resume client n stack reply frame).world.tasks := by
  cases frame with
  | turn t stage =>
    simp only [resume]
    split
    · exact (resumeTurn_tasks _ _ _).change trivial
    · exact .rests
  | acts p todo answer => cases todo <;> exact .rests
  | serving p =>
    simp only [resume]
    split
    · rw [serve_tasks]
      exact .rests
    · exact .rests
  | delivering p =>
    simp only [resume]
    split <;> exact .rests
  | fanOut members skip next diagnostic =>
    simp only [resume]
    repeat' split
    all_goals exact .rests
  | _ => exact .rests

theorem unwind_tasks (payload : Payload) (frame : Frame M E K H) :
    TaskChange w (.unwind payload) (frame :: stack)
      (w.unwind client stack payload frame).world.tasks := by
  cases frame with
  | turn t stage =>
    simp only [unwind]
    split
    · exact (unwindTurn_tasks _ _ _).change trivial
    · exact .rests
  | delivering p =>
    simp only [unwind]
    split <;> exact .rests
  | fanOut members skip next diagnostic =>
    simp only [unwind]
    split <;> exact .rests
  | _ => exact .rests

theorem move_tasks (hm : w.move client n stack control = some m) :
    TaskChange w control stack m.world.tasks := by
  cases control with
  | eval code =>
    cases hm
    cases code <;> exact .rests
  | perform op => exact perform_tasks hm
  | act due =>
    cases hm
    exact act_tasks due
  | deliver sink diagnostic =>
    cases hm
    cases sink <;> exact .rests
  | resume reply =>
    cases stack with
    | nil => cases hm
    | cons frame stack =>
      cases hm
      exact resume_tasks reply frame
  | unwind payload =>
    cases stack with
    | nil => cases hm
    | cons frame stack =>
      cases hm
      exact unwind_tasks payload frame
  | await child =>
    simp only [move] at hm
    repeat' split at hm
    all_goals cases hm
    all_goals exact .rests

theorem beginTurn_tasks : TurnsTasks w t (w.beginTurn client [] t).world := by
  unfold beginTurn
  dsimp only
  split
  · exact turnsTasks_same rfl
  · split
    · exact turnsTasks_modify fun _ => ⟨rfl, rfl, rfl, rfl, rfl⟩
    · rename_i task _ _ producer wake _
      obtain ⟨change, htasks, hsame⟩ := ask_tasks
        (w := w.modifyTask t fun task => { task with state := .running })
        (t := t) task producer
      refine ⟨fun task => change { task with state := .running }, ?_, ?_⟩
      · rw [htasks]
        exact List.modify_modify_eq _ _ _ _
      · intro task
        have hchange := hsame { task with state := .running }
        exact ⟨hchange.name, hchange.point, hchange.config, hchange.sink, hchange.cancelled⟩
    · exact turnsTasks_same rfl

theorem tasks_advance (time : Nat) : (w.advance time).tasks = w.tasks := by
  have wakes (due : List Nat) (v : World M E K H) :
      (due.foldl (fun w t => w.wake t) v).tasks = v.tasks := by
    induction due generalizing v with
    | nil => rfl
    | cons t due ih => exact (ih (v.wake t)).trans tasks_wake
  exact wakes _ _

/-- Between two steps at most one task changes, which begins its turn. -/
theorem between_tasks (hb : Between client w w') : ∃ t, TurnsTasks w t w' := by
  cases hb with
  | @turn t ready =>
    obtain ⟨change, htasks, hsame⟩ := beginTurn_tasks (w := { w with ready }) (t := t)
    exact ⟨t, change, htasks, hsame⟩
  | clock time => exact ⟨0, turnsTasks_same (tasks_advance time)⟩
  | _ => exact ⟨0, turnsTasks_same rfl⟩

theorem move_of_step (ht : w.thread? n = some thread) (hs : w.step client n = some w') :
    ∃ m, w.move client n thread.stack thread.control = some m ∧
      ∃ threads, w' = { m.world with threads } := by
  obtain ⟨current, hcurrent, hs⟩ := Option.bind_eq_some_iff.mp hs
  cases ht.symm.trans hcurrent
  obtain ⟨m, hm, hs⟩ := Option.bind_eq_some_iff.mp hs
  exact ⟨m, hm, _, (Option.some.inj hs).symm⟩

theorem step_tasks (hm : w.move client n thread.stack thread.control = some m)
    (ht : w.thread? n = some thread) (hs : w.step client n = some w') :
    w'.tasks = m.world.tasks := by
  obtain ⟨m', hm', threads, rfl⟩ := move_of_step ht hs
  cases hm.symm.trans hm'
  rfl

end World

/-! ## One task -/

/-- What a step does to one task. -/
inductive Task.Changes (t : Nat) (control : Control M E K H) (stack : List (Frame M E K H))
    (task : Task K) : Task K → Prop
  | rests : Changes t control stack task task
  | cancels : control.cancels t → Changes t control stack task task.cancel
  | spawns : control = .act (.spawn t) → Changes t control stack task task.spawn
  | turns {stage rest} {task' : Task K} : control.IsReturn → stack = .turn t stage :: rest →
      Task.Same task task' → Changes t control stack task task'

theorem Task.Changes.later (h : task.Changes t control stack task') : task.Later task' := by
  cases h with
  | rests => exact .refl task
  | cancels => exact task.later_cancel
  | spawns => exact task.same_spawn.later
  | turns _ _ hsame => exact hsame.later

theorem TaskChange.get (h : TaskChange w control stack tasks) (ht : w.tasks[t]? = some task) :
    ∃ task', tasks[t]? = some task' ∧ task.Changes t control stack task' := by
  have modified {u : Nat} {change : Task K → Task K}
      (hu : u = t → task.Changes t control stack (change task)) :
      ∃ task', (w.tasks.modify u change)[t]? = some task' ∧
        task.Changes t control stack task' := by
    by_cases heq : u = t
    · subst heq
      exact ⟨change task, by simp [ht], hu rfl⟩
    · exact ⟨task, by simp [ht, heq], .rests⟩
  cases h with
  | rests => exact ⟨task, ht, .rests⟩
  | binds =>
    have hlt := (List.getElem?_eq_some_iff.mp ht).1
    exact ⟨task, by simp [List.getElem?_append_left hlt, ht], .rests⟩
  | cancels hcancels =>
    apply modified
    rintro rfl
    exact .cancels hcancels
  | spawns =>
    apply modified
    rintro rfl
    exact .spawns rfl
  | turns change hreturn hsame =>
    apply modified
    rintro rfl
    exact .turns hreturn rfl (hsame task)

/-- A task that is there after a step and was not before is being bound. -/
theorem TaskChange.new (h : TaskChange w control stack tasks) (ht : w.tasks[t]? = none)
    (ht' : tasks[t]? = some task) : t = w.tasks.length ∧
      ∃ p point name producer config sink, control = .perform (.bind p name producer config sink) ∧
        w.points[p]? = some point ∧
        task = .bound p name producer config (sink.getD point.sink) := by
  have modified {u : Nat} {change : Task K → Task K}
      (h : (w.tasks.modify u change)[t]? = some task) : False := by
    simp [List.getElem?_modify, ht] at h
  cases h with
  | rests => cases ht.symm.trans ht'
  | @binds p point name producer config sink _ hp =>
    have hle := List.getElem?_eq_none_iff.mp ht
    rw [List.getElem?_append_right hle] at ht'
    obtain ⟨hlt, heq⟩ := List.getElem?_eq_some_iff.mp ht'
    simp only [List.length_singleton] at hlt
    refine ⟨by omega, p, point, name, producer, config, sink, rfl, hp, ?_⟩
    simpa using heq.symm
  | cancels => exact (modified ht').elim
  | spawns => exact (modified ht').elim
  | turns => exact (modified ht').elim

theorem World.TurnsTasks.get {u : Nat} (h : World.TurnsTasks w u w') (ht : w.tasks[t]? = some task) :
    ∃ task', w'.tasks[t]? = some task' ∧ task.Same task' := by
  obtain ⟨change, htasks, hsame⟩ := h
  rw [htasks]
  by_cases heq : u = t
  · subst heq
    exact ⟨change task, by simp [ht], hsame task⟩
  · exact ⟨task, by simp [ht, heq], rfl, rfl, rfl, rfl, rfl⟩

theorem World.TurnsTasks.none {u : Nat} (h : World.TurnsTasks w u w') (ht : w.tasks[t]? = none) :
    w'.tasks[t]? = none := by
  obtain ⟨change, htasks, -⟩ := h
  simp [htasks, List.getElem?_modify, ht]

theorem Run.task_later {u : World M E K H} {trail : List (Moment M E K H)}
    (run : Run client u trail w) (h : u.tasks[t]? = some task) :
    ∃ task', w.tasks[t]? = some task' ∧ task.Later task' := by
  induction run with
  | refl => exact ⟨task, h, .refl task⟩
  | step _ ht hstep ih =>
    obtain ⟨before, hbefore, hlater⟩ := ih
    obtain ⟨m, hm, threads, rfl⟩ := World.move_of_step ht hstep
    obtain ⟨after, hafter, hchanges⟩ := (World.move_tasks hm).get hbefore
    exact ⟨after, hafter, hlater.trans hchanges.later⟩
  | between _ hb ih =>
    obtain ⟨before, hbefore, hlater⟩ := ih
    obtain ⟨_, hturns⟩ := World.between_tasks hb
    obtain ⟨after, hafter, hsame⟩ := hturns.get hbefore
    exact ⟨after, hafter, hlater.trans hsame.later⟩

end Exchange
