import Exchange.Proofs.Endings
import Exchange.Proofs.Recording

/-!
An exchange that is made to look different in what its steps do not ask for: the client's state as long as no
code runs on it, the number of the next diagnostic as long as none is created, whether bindings answer panics
as long as there are none, and what threads are about to do as long as it is not their turn. A step leads
from the one exchange to the other.
-/

namespace Exchange
set_option autoImplicit false

variable {M E K H : Type} {client : Client M E K H} {w w' : World M E K H} {t n p : Nat}
  {thread : Thread M E K H}
variable {control : Control M E K H} {stack : List (Frame M E K H)} {m : Move M E K H}
variable {frame : Frame M E K H}

/-- How an exchange is made to look different. Threads keep their numbers, and those that begin something
are left alone. -/
structure Recast (M E K H : Type) where
  host : H → H
  seq : Nat → Nat
  /-- Whether the binding of that task answers panics. -/
  answers : Nat → Bool → Bool
  thread : Thread M E K H → Thread M E K H
  thread_id : ∀ other, (thread other).id = other.id
  thread_begins : ∀ other, other.Begins → thread other = other

variable {r : Recast M E K H}

def Recast.taskAt (r : Recast M E K H) (t : Nat) (task : Task K) : Task K :=
  { task with config := { task.config with answersPanics := r.answers t task.config.answersPanics } }

def World.recast (r : Recast M E K H) (w : World M E K H) : World M E K H :=
  { w with
    host := r.host w.host
    nextSeq := r.seq w.nextSeq
    tasks := w.tasks.mapIdx r.taskAt
    threads := w.threads.map r.thread }

def Move.recast (r : Recast M E K H) (m : Move M E K H) : Move M E K H :=
  ⟨m.world.recast r, m.control, m.stack⟩

/-- Threads still hold the points that they held, and are over if they were; tasks to come are as their
bindings say. -/
structure Recast.Suits (r : Recast M E K H) (w : World M E K H) : Prop where
  holdsPoint : ∀ thread ∈ w.threads, ∀ p, (r.thread thread).holdsPoint p = thread.holdsPoint p
  isOver : ∀ thread ∈ w.threads, (r.thread thread).isOver = thread.isOver
  answers : ∀ t ≥ w.tasks.length, r.answers t = id

/-- The client's state and the numbers stay. -/
structure Recast.IsPlain (r : Recast M E K H) : Prop where
  host : r.host = id
  seq : r.seq = id

/-- The same, with that state of the client and that number for the next diagnostic. -/
def Recast.hosting (r : Recast M E K H) (host : H) (seq : Nat) : Recast M E K H :=
  { r with host := fun _ => host, seq := fun _ => seq }

theorem Recast.Suits.hosting {host : H} {seq : Nat} (h : r.Suits w) : (r.hosting host seq).Suits w :=
  ⟨h.holdsPoint, h.isOver, h.answers⟩

/-- Only the client's state and the numbers are made others. -/
def Recast.remaking (f : H → H) (g : Nat → Nat) : Recast M E K H where
  host := f
  seq := g
  answers _ := id
  thread := id
  thread_id _ := rfl
  thread_begins _ _ := rfl

theorem Recast.suits_remaking (f : H → H) (g : Nat → Nat) : (Recast.remaking f g).Suits w :=
  ⟨fun _ _ _ => rfl, fun _ _ => rfl, fun _ _ => rfl⟩

namespace World
variable {task : Task K} {point : Point M E K}

@[simp] theorem recast_points : (w.recast r).points = w.points := rfl

theorem recast_tasks (h : ∀ t, r.answers t = id) : (w.recast r).tasks = w.tasks := by
  apply List.ext_getElem?
  intro t
  have htask : r.taskAt t = id := by
    funext task
    rw [Recast.taskAt, h]
    rfl
  rw [recast, List.getElem?_mapIdx, htask, Option.map_id_fun]
  rfl

@[simp] theorem recast_task? : (w.recast r).tasks[t]? = w.tasks[t]?.map (r.taskAt t) :=
  List.getElem?_mapIdx

theorem recast_thread? : (w.recast r).thread? t = (w.thread? t).map r.thread := by
  unfold thread? recast
  rw [List.find?_map]
  simp only [Function.comp_def, r.thread_id]

/-- What is asked of tasks but for their settings. -/
theorem recast_any_tasks (asked : Task K → Bool) (h : ∀ t task, asked (r.taskAt t task) = asked task) :
    (w.recast r).tasks.any asked = w.tasks.any asked := by
  have hmap : (w.tasks.mapIdx r.taskAt).map asked = w.tasks.map asked := by
    apply List.ext_getElem?
    intro t
    simp only [List.getElem?_map, List.getElem?_mapIdx]
    cases w.tasks[t]? <;> simp [h]
  have hany := congrArg (List.any · id) hmap
  rw [List.any_map, List.any_map] at hany
  exact hany

theorem recast_isAlive
    (h : ∀ thread ∈ w.threads, ∀ p, (r.thread thread).holdsPoint p = thread.holdsPoint p) :
    (w.recast r).isAlive p = w.isAlive p := by
  have hthreads : (w.threads.map r.thread).any (Thread.holdsPoint p) = w.threads.any (Thread.holdsPoint p) := by
    rw [Bool.eq_iff_iff, List.any_map, List.any_eq_true, List.any_eq_true]
    refine exists_congr fun other => and_congr_right fun hother => ?_
    rw [Function.comp_apply, h other hother]
  have htasks := recast_any_tasks (w := w) (r := r)
    (fun task => task.point = p && task.state.holdsPoint) fun _ _ => rfl
  unfold isAlive
  rw [htasks]
  change (_ || (w.threads.map r.thread).any (Thread.holdsPoint p) || _) = _
  rw [hthreads]
  rfl

theorem recast_modifyTask {change : Task K → Task K}
    (h : ∀ task, r.taskAt t (change task) = change (r.taskAt t task)) :
    (w.recast r).modifyTask t change = (w.modifyTask t change).recast r := by
  have htasks : (w.tasks.mapIdx r.taskAt).modify t change = (w.tasks.modify t change).mapIdx r.taskAt := by
    apply List.ext_getElem?
    intro u
    simp only [List.getElem?_modify, List.getElem?_mapIdx]
    by_cases hu : t = u
    · subst hu
      cases w.tasks[t]? <;> simp [h]
    · simp [hu]
  simp only [modifyTask, recast, htasks]

theorem recast_enters {state : TaskState K} :
    (w.recast r).modifyTask t (fun task => { task with state }) =
      (w.modifyTask t fun task => { task with state }).recast r := recast_modifyTask fun _ => rfl

theorem recast_wake : (w.recast r).wake t = (w.wake t).recast r := by
  have hparked : (w.recast r).tasks[t]?.any (·.state.isParked) = w.tasks[t]?.any (·.state.isParked) := by
    rw [recast_task?]
    cases w.tasks[t]? <;> rfl
  unfold wake
  rw [hparked]
  change (if w.tasks[t]?.any (·.state.isParked) && !w.ready.contains t then _ else _) = _
  split <;> rfl

theorem recast_cancel : (w.recast r).cancel t = (w.cancel t).recast r := by
  unfold cancel
  rw [recast_task?]
  cases w.tasks[t]? with
  | none => rfl
  | some task =>
    simp only [Option.map_some]
    change (if task.cancelled then _ else _) = _
    have hcancels : (w.recast r).modifyTask t (fun task => { task with cancelled := true }) =
        (w.modifyTask t fun task => { task with cancelled := true }).recast r :=
      recast_modifyTask fun _ => rfl
    split
    · rfl
    · rw [hcancels, recast_wake]

/-! ## Calls -/

theorem recast_register {interest : Interest} {code : K} :
    (w.recast r).register t stack p point interest code =
      (w.register t stack p point interest code).map (Move.recast r) := by
  unfold register
  split
  · rfl
  · rfl
  · split <;> rfl

theorem recast_unregister {id : Nat} (hs : r.Suits w) : (w.recast r).unregister t stack p point id =
    (w.unregister t stack p point id).map (Move.recast r) := by
  unfold unregister
  rw [recast_isAlive hs.holdsPoint]
  split
  · rfl
  · split
    · rfl
    · rfl
    · dsimp only
      split <;> rfl

theorem recast_atEnd {notice : Notice K} : (w.recast r).atEnd t stack p point notice =
    (w.atEnd t stack p point notice).map (Move.recast r) := by
  unfold atEnd
  dsimp only
  split
  · rfl
  · rfl
  · split
    · rfl
    · split <;> rfl

theorem recast_push {event : Event M E} : (w.recast r).push t stack p point event =
    (w.push t stack p point event).map (Move.recast r) := by
  unfold push
  split
  · rfl
  · rfl
  · split <;> rfl

theorem recast_poke : (w.recast r).poke stack p point = (w.poke stack p point).recast r := by
  unfold poke
  split
  · rfl
  · split <;> rfl

/-- The new task is as its binding says. -/
theorem recast_bind {name : String} {producer : K} {config : Config} {sink : Option (Sink K)}
    (hs : r.Suits w) : (w.recast r).bind stack p point name producer config sink =
      (w.bind stack p point name producer config sink).recast r := by
  have hlength : (w.tasks.mapIdx r.taskAt).length = w.tasks.length := List.length_mapIdx
  have hnew (task : Task K) : r.taskAt w.tasks.length task = task := by
    simp only [Recast.taskAt, hs.answers _ (Nat.le_refl _), id]
  simp only [bind, Move.acts, Move.recast, recast, List.mapIdx_concat, hnew, hlength]

theorem recast_fork {child : Thread M E K H} (hc : r.thread child = child) :
    (w.threads.map r.thread).flatMap (fun other =>
      if other.id = t then [child, other] else [other]) =
    (w.threads.flatMap fun other => if other.id = t then [child, other] else [other]).map r.thread := by
  rw [List.flatMap_map, List.map_flatMap]
  apply List.flatMap_congr
  intro other _
  rw [r.thread_id]
  split
  · rw [List.map_cons, List.map_singleton, hc]
  · rfl

theorem recast_perform {op : Op M E K} (hs : r.Suits w) :
    (w.recast r).perform client t stack op = (w.perform client t stack op).map (Move.recast r) := by
  cases op with
  | register p =>
    simp only [perform, recast_points]
    split
    · exact recast_register
    · rfl
  | unregister handle =>
    simp only [perform, recast_points]
    split
    · split
      · exact recast_unregister hs
      · rfl
    · rfl
  | atEnd p =>
    simp only [perform, recast_points]
    split
    · exact recast_atEnd
    · rfl
  | push p =>
    simp only [perform, recast_points]
    split
    · exact recast_push
    · rfl
  | poke p =>
    simp only [perform, recast_points]
    split
    · rw [recast_poke]
      rfl
    · rfl
  | inspect p =>
    simp only [perform, recast_points]
    split <;> rfl
  | emit p =>
    simp only [perform, recast_points]
    split <;> rfl
  | bind p =>
    simp only [perform, recast_points]
    split
    · rw [recast_bind hs]
      rfl
    · rfl
  | cancel t' =>
    simp only [perform]
    rw [recast_cancel]
    rfl
  | watch t' =>
    simp only [perform, recast_task?]
    cases w.tasks[t']? <;> rfl
  | fork code wait =>
    have hcode (child : Nat) (code : Code M E K H (Reply M K)) :
        r.thread ⟨child, .eval code, []⟩ = ⟨child, .eval code, []⟩ := r.thread_begins _ (.bare trivial)
    simp only [perform, recast, Option.map_some, Move.recast]
    rw [recast_fork (hcode _ _)]
  | _ => rfl

/-! ## Turns and frames -/

theorem recast_ask {producer : K} :
    (w.recast r).ask client stack t (r.taskAt t task) producer =
      (w.ask client stack t task producer).recast r := by
  unfold ask
  change (if task.cancelled then _ else _) = _
  split
  · rfl
  · exact congrArg (Move.mk · _ _) (recast_modifyTask fun _ => rfl)

theorem recast_park {wake : Wake} {rest : K} :
    (w.recast r).park client stack t (r.taskAt t task) wake rest =
      (w.park client stack t task wake rest).recast r := by
  unfold park
  change (if task.deadline.any (· ≤ w.clock) then _ else _) = _
  split
  · rfl
  · rw [recast_enters]
    dsimp only
    rw [recast_wake]
    change Move.answer (if wake = .soon || task.cancelled then _ else _) _ _ = _
    split <;> rfl

theorem recast_beginTurn : (w.recast r).beginTurn client stack t =
    (w.beginTurn client stack t).recast r := by
  unfold beginTurn
  rw [recast_task?, recast_enters]
  cases w.tasks[t]? with
  | none => rfl
  | some task =>
    obtain ⟨name, p, config, sink, state, cancelled, deadline⟩ := task
    cases state with
    | parked producer wake => exact recast_ask
    | _ => rfl

theorem recast_conclude {outcome : Outcome} :
    (w.recast r).conclude stack t outcome = (w.conclude stack t outcome).recast r := by
  rw [conclude, recast_enters]
  rfl

theorem recast_resumeTurn {stage : Stage K} {reply : Reply M K} :
    (w.recast r).resumeTurn client stack t (r.taskAt t task) stage reply =
      (w.resumeTurn client stack t task stage reply).recast r := by
  unfold resumeTurn
  split
  · exact recast_ask
  · exact recast_park
  all_goals first | rfl | exact recast_conclude

/-- Whether panics are answered is asked only when there is one to answer. -/
theorem recast_unwindTurn {stage : Stage K} {payload : Payload}
    (hs : stage.isAnswered → r.answers t = id) :
    (w.recast r).unwindTurn client stack t (r.taskAt t task) stage payload =
      (w.unwindTurn client stack t task stage payload).recast r := by
  have hset (h : stage.isAnswered) :
      (r.taskAt t task).config.answersPanics = task.config.answersPanics := by
    simp only [Recast.taskAt, hs h, id]
  unfold unwindTurn
  cases stage with
  | polling =>
    rw [hset rfl]
    cases task.config.answersPanics
    · exact recast_conclude
    · rfl
  | rendering =>
    rw [hset rfl]
    cases task.config.answersPanics
    · exact recast_conclude
    · rfl
  | _ => exact recast_conclude

theorem recast_serve : (w.recast r).serve t stack p point = (w.serve t stack p point).recast r := by
  unfold serve
  dsimp only
  split
  · rfl
  · split
    · split <;> rfl
    · rfl
  · split
    · split <;> rfl
    · rfl
    · rfl

theorem recast_resume {reply : Reply M K} :
    (w.recast r).resume client t stack reply frame = (w.resume client t stack reply frame).recast r := by
  cases frame with
  | caller next => rfl
  | acts p todo answer => cases todo <;> rfl
  | serving p =>
    simp only [resume, recast_points]
    split
    · exact recast_serve
    · rfl
  | delivering p =>
    simp only [resume, recast_points]
    split <;> rfl
  | fanOut members skip next diagnostic =>
    simp only [resume]
    split
    · rfl
    · split <;> rfl
  | turn t' stage =>
    simp only [resume, recast_task?]
    cases w.tasks[t']? with
    | none => rfl
    | some task => exact recast_resumeTurn
  | receiving => rfl
  | catching => rfl

theorem recast_unwind {payload : Payload} (hplain : r.IsPlain ∨ frame.reports = false)
    (hset : ∀ t stage, frame = .turn t stage → stage.isAnswered → r.answers t = id) :
    (w.recast r).unwind client stack payload frame =
      (w.unwind client stack payload frame).recast r := by
  cases frame with
  | delivering p =>
    simp only [unwind, recast_points]
    split <;> rfl
  | fanOut members skip next diagnostic =>
    rcases hplain with hplain | hf
    · simp only [unwind, diagnose, Move.recast, recast, hplain.seq, id]
      split <;> rfl
    · cases hf
  | turn t' stage =>
    simp only [unwind, recast_task?]
    cases w.tasks[t']? with
    | none => rfl
    | some task => exact recast_unwindTurn (hset t' stage rfl)
  | _ => rfl

theorem recast_await {child : Nat} (hs : r.Suits w) :
    (w.recast r).move client t stack (.await child) =
      (w.move client t stack (.await child)).map (Move.recast r) := by
  have hfind : (w.recast r).threads.find? (·.id = child) =
      (w.threads.find? (·.id = child)).map r.thread := recast_thread?
  have hfilter : (w.recast r).threads.filter (·.id ≠ child) =
      (w.threads.filter (·.id ≠ child)).map r.thread := by
    simp [recast, List.filter_map, Function.comp_def, r.thread_id]
  simp only [move, hfind, hfilter]
  cases hother : w.threads.find? (·.id = child) with
  | none => rfl
  | some other =>
    simp only [Option.map_some, hs.isOver other (List.mem_of_find?_eq_some hother)]
    split
    · rename_i hover
      rw [r.thread_begins other (.bare (Thread.isBare_of_isOver hover))]
      split <;> rfl
    · rfl

/-! ## Steps -/

/-- Unless the client's state and the numbers stay, the thread must have no part in a report and leave that
state alone. -/
theorem recast_move (hs : r.Suits w)
    (hplain : r.IsPlain ∨ Thread.Apart ⟨n, control, stack⟩ ∧ control.isReport = false ∧
      control.touchesHost = false)
    (hset : ∀ payload t stage rest, control = .unwind payload → stack = .turn t stage :: rest →
      stage.isAnswered → r.answers t = id) :
    (w.recast r).move client t stack control = (w.move client t stack control).map (Move.recast r) := by
  cases control with
  | eval code =>
    cases code with
    | host change next =>
      rcases hplain with hplain | ⟨-, -, hhost⟩
      · simp only [move, eval, Option.map_some, Move.recast, recast, hplain.host, id]
      · cases hhost
    | _ => rfl
  | perform op => exact recast_perform hs
  | act act =>
    cases act with
    | report sink kind label reason =>
      rcases hplain with hplain | ⟨-, hreport, -⟩
      · simp only [move, World.act, diagnose, Option.map_some, Move.recast, recast, hplain.seq, id]
      · cases hreport
    | announce producer point =>
      rcases hplain with hplain | ⟨-, -, hhost⟩
      · simp only [move, World.act, Move.answer, Option.map_some, Move.recast, recast, hplain.host, id]
      · cases hhost
    | cancel t' => exact congrArg (fun w => some (Move.answer w stack .done)) recast_cancel
    | notify ticket notice =>
      cases notice with
      | cancel t' => exact congrArg (fun w => some (Move.answer w stack .done)) recast_cancel
      | run code => rfl
    | spawn t' =>
      simp only [move, World.act]
      rw [recast_modifyTask]
      · rfl
      · intro task
        obtain ⟨name, p, config, sink, state, cancelled, deadline⟩ := task
        cases state <;> rfl
    | _ => rfl
  | deliver sink diagnostic =>
    rcases hplain with hplain | ⟨hapart, -⟩
    · cases sink with
      | recorder =>
        have hproducer : (w.recast r).producerOf stack = w.producerOf stack := by
          unfold producerOf
          congr 1
          funext t'
          rw [recast_task?]
          cases w.tasks[t']? <;> rfl
        simp only [move, deliver, hproducer]
        simp only [Move.answer, Option.map_some, Move.recast, recast, hplain.host, id]
      | _ => rfl
    · exact hapart.control.elim
  | resume reply =>
    cases stack with
    | nil => rfl
    | cons frame stack => exact congrArg some recast_resume
  | unwind payload =>
    cases stack with
    | nil => rfl
    | cons frame stack =>
      refine congrArg some (recast_unwind ?_ ?_)
      · exact hplain.imp_right fun h => h.1.stack frame List.mem_cons_self
      · rintro t' stage rfl
        exact hset payload t' stage stack rfl rfl
  | await child => exact recast_await hs

/-! ## Between two steps -/

theorem recast_assign
    (hr : r.thread ⟨mainThread, control, stack⟩ = ⟨mainThread, control, stack⟩) :
    (w.recast r).assign control stack = (w.assign control stack).recast r := by
  unfold assign recast
  simp only [List.map_map]
  congr 1
  apply List.map_congr_left
  intro other _
  simp only [Function.comp, r.thread_id]
  split
  · rename_i hid
    rw [hid, hr]
  · rfl

theorem recast_advance (time : Nat) : (w.recast r).advance time = (w.advance time).recast r := by
  have wakes (tasks : List Nat) (v : World M E K H) :
      tasks.foldl (fun w t => w.wake t) (v.recast r) =
        (tasks.foldl (fun w t => w.wake t) v).recast r := by
    induction tasks generalizing v with
    | nil => rfl
    | cons t tasks ih => rw [List.foldl_cons, List.foldl_cons, recast_wake, ih]
  let isDue (task : Task K) : Bool := task.timers.any (· ≤ max w.clock time)
  have hdue : (fun t : Nat => (w.recast r).tasks[t]?.any isDue) = fun t => w.tasks[t]?.any isDue := by
    funext t
    rw [recast_task?]
    cases w.tasks[t]? <;> rfl
  have hlength : (w.recast r).tasks.length = w.tasks.length := List.length_mapIdx
  unfold advance
  dsimp only
  rw [hlength]
  change (List.filter (fun t : Nat => (w.recast r).tasks[t]?.any isDue) _).foldl _ _ = _
  rw [hdue]
  exact wakes _ { w with clock := max w.clock time }

theorem recast_isIdle (hs : r.Suits w) : (w.recast r).isIdle = w.isIdle := by
  unfold isIdle
  rw [recast_thread?]
  cases ht : w.thread? mainThread with
  | none => rfl
  | some thread => exact hs.isOver thread (mem_of_thread? ht)

theorem recast_reap (hs : r.Suits w) :
    (w.recast r).threads.filter (fun thread => thread.id = mainThread || !thread.isOver) =
      (w.threads.filter fun thread => thread.id = mainThread || !thread.isOver).map r.thread := by
  change (w.threads.map r.thread).filter _ = _
  rw [List.filter_map]
  congr 1
  apply List.filter_congr
  intro other hother
  simp only [Function.comp, r.thread_id, hs.isOver other hother]

theorem recast_orderly (ho : w.Orderly) : (w.recast r).Orderly := by
  have hids : (w.recast r).threads.map (·.id) = w.threads.map (·.id) := by
    simp [recast, Function.comp_def, r.thread_id]
  constructor
  · rw [hids]
    exact ho.nodup
  · intro other hother
    obtain ⟨thread, hthread, rfl⟩ := List.mem_map.mp hother
    rw [r.thread_id]
    exact ho.fresh thread hthread

/-! ## One thread -/

/-- The exchange with one thread about to do that. -/
def put (t : Nat) (control : Control M E K H) (stack : List (Frame M E K H)) (w : World M E K H) :
    World M E K H :=
  { w with threads := moved t control stack w.threads }

theorem step_of_move (ht : w.thread? t = some thread)
    (hm : w.move client t thread.stack thread.control = some m) :
    w.step client t = some (m.world.put t m.control m.stack) := by
  have hfind : w.threads.find? (·.id = t) = some thread := ht
  simp only [step, hfind, hm, Option.bind_eq_bind, Option.bind_some]
  rfl

theorem put_put {control' : Control M E K H} {stack' : List (Frame M E K H)} :
    (w.put t control stack).put t control' stack' = w.put t control' stack' := by
  simp only [put, moved, List.map_map]
  congr 1
  apply List.map_congr_left
  intro other _
  simp only [Function.comp]
  split <;> simp_all

theorem put_self (ho : w.Orderly) (ht : w.thread? t = some ⟨t, control, stack⟩) :
    w.put t control stack = w := by
  have hthreads : moved t control stack w.threads = w.threads := by
    unfold moved
    conv_rhs => rw [← List.map_id w.threads]
    apply List.map_congr_left
    intro other hother
    split
    · rename_i hid
      have heq : other = ⟨t, control, stack⟩ := ho.eq_of_id_eq hother (mem_of_thread? ht) hid
      rw [heq]
      rfl
    · rfl
  rw [put, hthreads]

theorem thread?_put (ht : (w.thread? t).isSome) :
    (w.put t control stack).thread? t = some ⟨t, control, stack⟩ := by
  obtain ⟨thread, hthread⟩ := Option.isSome_iff_exists.mp ht
  unfold thread? put moved
  rw [List.find?_map]
  have hsame : ((fun other : Thread M E K H => decide (other.id = t)) ∘ fun other =>
      if other.id = t then { other with control, stack } else other) =
      fun other => decide (other.id = t) := by
    funext other
    simp only [Function.comp]
    split <;> simp_all
  have hfind : w.threads.find? (·.id = t) = some thread := hthread
  rw [hsame, hfind, Option.map_some, if_pos (id_of_thread? hthread), id_of_thread? hthread]

theorem recast_put {control' : Control M E K H} {stack' : List (Frame M E K H)}
    (hr : r.thread ⟨t, control, stack⟩ = ⟨t, control', stack'⟩) :
    (w.put t control stack).recast r = (w.recast r).put t control' stack' := by
  simp only [put, recast, moved, List.map_map]
  congr 1
  apply List.map_congr_left
  intro other _
  simp only [Function.comp, r.thread_id]
  split
  · rename_i hid
    rw [hid, hr]
  · rfl

/-- The other exchange goes on from the other place. -/
theorem put_recast {r' : Recast M E K H} {control' : Control M E K H} {stack' : List (Frame M E K H)}
    (hr : r'.thread ⟨t, control, stack⟩ = ⟨t, control', stack'⟩)
    (hothers : ∀ other : Thread M E K H, other.id ≠ t → r'.thread other = r.thread other)
    (hanswers : r'.answers = r.answers) {host : H} {seq : Nat} :
    (w.put t control stack).recast (r'.hosting host seq) =
      (w.recast (r.hosting host seq)).put t control' stack' := by
  have htask : r'.taskAt = r.taskAt := by
    funext u task
    rw [Recast.taskAt, Recast.taskAt, hanswers]
  simp only [put, recast, moved, List.map_map, Recast.hosting]
  change { w with host, nextSeq := seq, tasks := w.tasks.mapIdx r'.taskAt, threads := _ } =
    ({ w with host, nextSeq := seq, tasks := w.tasks.mapIdx r.taskAt, threads := _ } : World M E K H)
  rw [htask]
  congr 1
  apply List.map_congr_left
  intro other _
  simp only [Function.comp, r.thread_id]
  split
  · rename_i hid
    rw [hid, hr]
  · rename_i hid
    exact hothers other hid

/-- A step that leads to what looks the same is not seen. -/
theorem recast_unseen {r' : Recast M E K H} {host host' : H} {seq seq' : Nat} (ho : w.Orderly)
    (ht : w.thread? t = some thread) (hr : r'.thread ⟨t, control, stack⟩ = r.thread thread)
    (hothers : ∀ other : Thread M E K H, other.id ≠ t → r'.thread other = r.thread other)
    (hanswers : r'.answers = r.answers) :
    ({ w with host := host', nextSeq := seq' }.put t control stack).recast (r'.hosting host seq) =
      w.recast (r.hosting host seq) := by
  have hid : (r.thread thread).id = t := (r.thread_id thread).trans (id_of_thread? ht)
  have hthread : (w.recast (r.hosting host seq)).thread? t = some (r.thread thread) := by
    rw [recast_thread?, ht]
    rfl
  generalize r.thread thread = other at hr hid hthread
  obtain ⟨n, control', stack'⟩ := other
  obtain rfl : n = t := hid
  rw [put_recast hr hothers hanswers]
  change (w.recast (r.hosting host seq)).put n control' stack' = _
  exact put_self (recast_orderly ho) hthread

/-! ## The client's state and the numbers made others -/

/-- What does the same whatever the client's state is made into leaves that state alone. -/
theorem keeps_of_recast (act : World M E K H → World M E K H)
    (h : ∀ f g, act (w.recast (.remaking f g)) = (act w).recast (.remaking f g)) :
    (act w).host = w.host ∧ (act w).nextSeq = w.nextSeq := by
  have hsame : w.recast (.remaking (fun _ => w.host) fun _ => w.nextSeq) = w.recast (.remaking id id) := rfl
  have heq : (act w).recast (.remaking id id) =
      (act w).recast (.remaking (fun _ => w.host) fun _ => w.nextSeq) := by
    rw [← h, ← hsame, h]
  have hhost := congrArg World.host heq
  have hseq := congrArg World.nextSeq heq
  exact ⟨hhost, hseq⟩

theorem move_keeps (ha : Thread.Apart ⟨n, control, stack⟩) (hr : control.isReport = false)
    (hc : control.touchesHost = false) (hm : w.move client t stack control = some m) :
    m.world.host = w.host ∧ m.world.nextSeq = w.nextSeq := by
  have hkeeps := keeps_of_recast (w := w)
    (fun v => ((v.move client t stack control).map Move.world).getD v) ?_
  · simpa only [hm, Option.map_some, Option.getD_some] using hkeeps
  · intro f g
    have hmove : (w.recast (.remaking f g)).move client t stack control =
        (w.move client t stack control).map (Move.recast (.remaking f g)) :=
      recast_move (Recast.suits_remaking f g) (.inr ⟨ha, hr, hc⟩) fun _ _ _ _ _ _ _ => rfl
    simp only [hmove, hm, Option.map_some, Option.getD_some, Move.recast]

variable {V : Type} {view : H → V} {host : H}

/-- A step that reports nothing leads from the one exchange to the other, if code sees no difference. -/
theorem recast_moves (seq : Nat) (hs : r.Suits w) (hset : ∀ u, r.answers u = id)
    (ha : Thread.Apart ⟨n, control, stack⟩) (hr : control.isReport = false)
    (hb : Moment.Blind client view ⟨w, ⟨n, control, stack⟩⟩) (hv : view host = view w.host)
    (hm : w.move client t stack control = some m) :
    m.world.nextSeq = w.nextSeq ∧
      ∃ host', (w.recast (r.hosting host seq)).move client t stack control =
        some (m.recast (r.hosting host' seq)) ∧ view host' = view m.world.host := by
  cases hc : control.touchesHost with
  | false =>
    obtain ⟨hhost, hseq⟩ := move_keeps ha hr hc hm
    refine ⟨hseq, host, ?_, hhost ▸ hv⟩
    rw [recast_move hs.hosting (.inr ⟨ha, hr, hc⟩) fun _ u _ _ _ _ _ => hset u, hm, Option.map_some]
  | true =>
    cases control with
    | eval code =>
      cases code with
      | host change next =>
        cases hm
        obtain ⟨hchange, hnext⟩ := hb ha.not_reporting host hv
        refine ⟨rfl, change host, ?_, hchange⟩
        simp only [move, eval, recast, Recast.hosting, Move.recast, hnext]
        rfl
      | _ => cases hc
    | act act =>
      cases act with
      | announce producer point =>
        cases hm
        exact ⟨rfl, client.bound producer point host, rfl, hb host hv⟩
      | _ => cases hc
    | _ => cases hc

/-- What happens between two steps leads from the one exchange to the other. -/
theorem recast_between (hs : r.Suits w) (hb : Between client w w') :
    Between client (w.recast r) (w'.recast r) := by
  cases hb with
  | code code hidle =>
    have hthread : r.thread ⟨mainThread, .eval (code.bind fun _ => .ret .done), []⟩ = _ :=
      r.thread_begins _ (.bare trivial)
    rw [← recast_assign hthread]
    exact .code code (recast_isIdle hs ▸ hidle)
  | @turn u ready hidle hready =>
    have hturn : Between client (w.recast r) _ := .turn (recast_isIdle hs ▸ hidle) hready
    have htaken : { w.recast r with ready } = ({ w with ready } : World M E K H).recast r := rfl
    rw [htaken, recast_beginTurn] at hturn
    rw [← recast_assign (r.thread_begins _ (beginTurn_begins mainThread).1)]
    exact hturn
  | clock time =>
    rw [← recast_advance]
    exact .clock time
  | host change => exact .host fun _ => r.host (change w.host)
  | reap =>
    have hreap : Between client (w.recast r) _ := .reap
    rw [recast_reap hs] at hreap
    exact hreap

/-- The client's state may be another, if code sees no difference. -/
theorem hosting_between {seq : Nat} (hs : r.Suits w) (hv : view host = view w.host) (hb : Between client w w') :
    w'.nextSeq = w.nextSeq ∧
      ∃ host', Between client (w.recast (r.hosting host seq)) (w'.recast (r.hosting host' seq)) ∧
        view host' = view w'.host := by
  have rests (hkeeps : w'.host = w.host ∧ w'.nextSeq = w.nextSeq) : w'.nextSeq = w.nextSeq ∧
      ∃ host', Between client (w.recast (r.hosting host seq)) (w'.recast (r.hosting host' seq)) ∧
        view host' = view w'.host :=
    ⟨hkeeps.2, host, recast_between hs.hosting hb, hkeeps.1 ▸ hv⟩
  cases hb with
  | code => exact rests ⟨rfl, rfl⟩
  | @turn u ready =>
    exact rests (keeps_of_recast (w := { w with ready }) (fun v => (v.beginTurn client [] u).world)
      fun f g => congrArg Move.world recast_beginTurn)
  | clock time => exact rests (keeps_of_recast (World.advance time) fun _ _ => recast_advance time)
  | host change => exact ⟨rfl, change w.host, .host fun _ => change w.host, rfl⟩
  | reap => exact rests ⟨rfl, rfl⟩

end World
end Exchange
