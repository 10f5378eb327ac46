import Exchange.Proofs.Dues

/-!
How a task is tied to its point. The call that binds it hands the point one notice, which cancels the
task; nobody else hands over such a notice unless the client's own code does.
-/

namespace Exchange
set_option autoImplicit false

variable {M E K H : Type} {client : Client M E K H} {w w' : World M E K H} {t n p : Nat}
  {thread : Thread M E K H}
variable {control : Control M E K H} {stack : List (Frame M E K H)} {m : Move M E K H}
variable {act : Act M E K}

/-! ## Points stay -/

namespace World
variable {point : Point M E K}

/-- The sinks of the points. -/
def sinks (w : World M E K H) : List (Sink K) := w.points.map (·.sink)

theorem sinks_set {other : Point M E K} (hp : w.points[p]? = some point) (h : other.sink = point.sink) :
    (w.points.set p other).map (·.sink) = w.sinks := by
  apply List.ext_getElem?
  intro q
  rw [sinks, List.getElem?_map, List.getElem?_map, List.getElem?_set]
  by_cases hq : p = q
  · subst hq
    obtain ⟨hlt, rfl⟩ := List.getElem?_eq_some_iff.mp hp
    simp [hlt, h]
  · simp [hq]

theorem sinks_modify {change : Point M E K → Point M E K} (h : ∀ point, (change point).sink = point.sink) :
    (w.points.modify p change).map (·.sink) = w.sinks := by
  apply List.ext_getElem?
  intro q
  simp only [sinks, List.getElem?_map, List.getElem?_modify]
  split <;> cases w.points[q]? <;> simp [h]

@[simp] theorem sinks_setPhase (phase : Phase M E K) : (w.setPhase p phase).sinks = w.sinks :=
  sinks_modify fun _ => rfl

theorem sinks_eq (h : w'.points = w.points) : w'.sinks = w.sinks := by rw [sinks, h, sinks]

theorem perform_sinks {op : Op M E K} (hm : w.perform client n stack op = some m) :
    w.sinks <+: m.world.sinks := by
  have same (h : m.world.sinks = w.sinks) : w.sinks <+: m.world.sinks := h ▸ List.prefix_rfl
  -- a call on a point that does not exist is answered at once
  have absent {reply : Reply M K} (h : some (Move.answer w stack reply) = some m) :
      w.sinks <+: m.world.sinks := by
    cases h
    exact List.prefix_rfl
  cases op <;> simp only [perform] at hm
  case create =>
    cases hm
    simp [sinks, Move.answer]
  case register =>
    split at hm
    · rename_i hp
      unfold register at hm
      repeat' split at hm
      all_goals cases hm
      · exact List.prefix_rfl
      · exact List.prefix_rfl
      · exact same (sinks_set hp rfl)
    · exact absent hm
  case unregister =>
    split at hm
    · split at hm
      · unfold unregister at hm
        dsimp only at hm
        repeat' split at hm
        all_goals cases hm
        all_goals simp [Move.answer, Move.serve]
      · exact absent hm
    · exact absent hm
  case atEnd =>
    split at hm
    · rename_i hp
      unfold atEnd at hm
      dsimp only at hm
      repeat' split at hm
      all_goals cases hm
      all_goals exact same (sinks_set hp rfl)
    · exact absent hm
  case push =>
    split at hm
    · unfold push at hm
      repeat' split at hm
      all_goals cases hm
      all_goals simp [Move.answer, Move.acts, Move.serve]
    · exact absent hm
  case poke =>
    split at hm
    · cases hm
      unfold poke
      repeat' split
      all_goals exact List.prefix_rfl
    · exact absent hm
  case cancel =>
    cases hm
    exact same (sinks_eq calm_cancel.points)
  case bind =>
    split at hm
    · cases hm
      exact List.prefix_rfl
    · exact absent hm
  case inspect => split at hm <;> exact absent hm
  case emit =>
    split at hm
    · cases hm
      exact List.prefix_rfl
    · exact absent hm
  case release =>
    cases hm
    exact same (sinks_modify fun _ => rfl)
  case answerPoke =>
    cases hm
    exact same (sinks_modify fun _ => rfl)
  all_goals
    cases hm
    exact List.prefix_rfl

theorem serve_sinks : (w.serve n stack p point).world.sinks = w.sinks := by
  unfold serve
  dsimp only
  repeat' split
  all_goals simp [Move.answer]

/-- Points stay, and so do their sinks. -/
theorem move_sinks (hm : w.move client n stack control = some m) : w.sinks <+: m.world.sinks := by
  have same (h : m.world.points = w.points) : w.sinks <+: m.world.sinks :=
    sinks_eq h ▸ List.prefix_rfl
  have serving {reply : Reply M K} {q : Nat} {rest : List (Frame M E K H)}
      (hm : w.move client n (.serving q :: rest) (.resume reply) = some m) :
      w.sinks <+: m.world.sinks := by
    cases hm
    simp only [resume]
    split
    · exact serve_sinks ▸ List.prefix_rfl
    · exact List.prefix_rfl
  have delivering {q : Nat} {rest : List (Frame M E K H)}
      (hm : w.move client n (.delivering q :: rest) control = some m) (hc : control.IsReturn) :
      w.sinks <+: m.world.sinks := by
    cases control with
    | resume =>
      cases hm
      simp only [resume]
      split
      all_goals simp [Move.answer]
    | unwind =>
      cases hm
      simp only [unwind]
      split
      all_goals simp [Move.answer]
    | _ => exact hc.elim
  cases move_stride hm with
  | changes _ hc => exact same hc.points
  | answers => exact perform_sinks hm
  | owes => exact perform_sinks hm
  | serves => exact perform_sinks hm
  | forks _ hf => exact same hf.points
  | forksAndWaits _ hf => exact same hf.points
  | joins _ hj => exact same (hj.elim Calm.points Joined.points)
  | joinsPanic _ hj => exact same hj.points
  | acts hc => exact same hc.points
  | records hc => exact same hc.points
  | fansOn _ _ hc => exact same hc.points
  | runsOn _ _ _ hc => exact same hc.points
  | closes _ _ hc => exact same hc.points
  | pops _ _ hc => exact same hc.points
  | advances => exact serving hm
  | drops => exact serving hm
  | retires => exact serving hm
  | leaves hc => exact delivering hm hc
  | catches => exact delivering hm trivial
  | _ => exact same rfl

/-- Tasks are bound to points that are there. -/
def Grounded (w : World M E K H) : Prop :=
  ∀ (t : Nat) (task : Task K), w.tasks[t]? = some task → ∃ point, w.points[task.point]? = some point

theorem exists_point_of_sinks {u : World M E K H} (hsinks : w.sinks <+: u.sinks)
    (h : ∃ point, w.points[p]? = some point) : ∃ point, u.points[p]? = some point := by
  obtain ⟨point, hp⟩ := h
  have hlt := (List.getElem?_eq_some_iff.mp hp).1
  have hle := hsinks.length_le
  simp only [sinks, List.length_map] at hle
  exact ⟨_, List.getElem?_eq_getElem (Nat.lt_of_lt_of_le hlt hle)⟩

theorem initial_grounded (host : H) : (initial host : World M E K H).Grounded := by
  intro t task ht
  cases ht

theorem Grounded.of_step (h : w.Grounded) (ht : w.thread? n = some thread)
    (hs : w.step client n = some w') : w'.Grounded := by
  obtain ⟨m, hm, threads, rfl⟩ := move_of_step ht hs
  intro t task htask
  change m.world.tasks[t]? = some task at htask
  have hsinks : w.sinks <+: sinks { m.world with threads } := move_sinks hm
  refine exists_point_of_sinks hsinks ?_
  cases hbefore : w.tasks[t]? with
  | some before =>
    obtain ⟨after, hafter, hchanges⟩ := (move_tasks hm).get hbefore
    cases htask.symm.trans hafter
    rw [hchanges.later.point]
    exact h t before hbefore
  | none =>
    obtain ⟨-, p, point, name, producer, config, sink, -, hp, rfl⟩ := (move_tasks hm).new hbefore htask
    exact ⟨point, hp⟩

theorem Grounded.of_between (h : w.Grounded) (ho : w.Orderly) (hb : Between client w w') :
    w'.Grounded := by
  obtain ⟨⟨hpoints, -⟩, -⟩ := between_interlude ho hb
  obtain ⟨u, hturns⟩ := between_tasks hb
  intro t task htask
  rw [hpoints]
  cases hbefore : w.tasks[t]? with
  | some before =>
    obtain ⟨after, hafter, hsame⟩ := hturns.get hbefore
    cases htask.symm.trans hafter
    rw [hsame.point]
    exact h t before hbefore
  | none => cases htask.symm.trans (hturns.none hbefore)

end World

/-! ## The notice that ties a task to its point -/

/-- The act hands over the notice that cancels the task. -/
def Act.handsOver (t : Nat) : Act M E K → Bool
  | .call (.atEnd _ (.cancel u)) => u = t
  | _ => false

namespace Moment

/-- Some notice that cancels the task is handed over. -/
def handsOver (t : Nat) (m : Moment M E K H) : Bool :=
  match m.thread.control with
  | .perform (.atEnd _ (.cancel u)) => u = t
  | _ => false

/-- It is the client's code that hands the notice over. -/
def meddles (t : Nat) (m : Moment M E K H) : Bool :=
  m.handsOver t && (m.thread.stack.head?.bind Frame.holder?).isNone

/-- The call that binds the task reaches the point. -/
structure Binds (t p : Nat) (m : Moment M E K H) : Prop where
  point : ∃ point, m.world.points[p]? = some point
  control : m.thread.control = .perform (.atEnd p (.cancel t))
  stack : ∃ name below,
    m.thread.stack = .acts p [.announce name (Point.label p), .spawn t] (.task t) :: below

theorem handsOver_iff {m : Moment M E K H} :
    m.handsOver t ↔ ∃ q, m.thread.control = .perform (.atEnd q (.cancel t)) := by
  unfold handsOver
  split
  · rename_i hcontrol
    simp [hcontrol]
  · rename_i hnot
    constructor
    · intro h
      cases h
    · rintro ⟨q, hcontrol⟩
      exact absurd hcontrol (hnot q t)

end Moment

/-- The moments at which a notice is handed over that cancels the task. -/
def handOvers (t : Nat) (trail : List (Moment M E K H)) : List (Moment M E K H) :=
  trail.filter (Moment.handsOver t)

/-- No such notice is to be handed over by the calls of the thread. -/
def Silent (t : Nat) (control : Control M E K H) (stack : List (Frame M E K H)) : Prop :=
  ∀ q act, (q, act) ∈ duesOf control stack → act.handsOver t = false

/-- The call that binds the task has not yet reached the point. -/
inductive Binding (t p : Nat) : Control M E K H → List (Frame M E K H) → Prop
  | owes {reply : Reply M K} {name : String} {below : List (Frame M E K H)} :
      Silent t (.resume .done) below →
      Binding t p (.resume reply)
        (.acts p [.call (.atEnd p (.cancel t)), .announce name (Point.label p), .spawn t] (.task t) ::
          below)
  | turns {name : String} {below : List (Frame M E K H)} : Silent t (.resume .done) below →
      Binding t p (.act (.call (.atEnd p (.cancel t))))
        (.acts p [.announce name (Point.label p), .spawn t] (.task t) :: below)
  | reaches {name : String} {below : List (Frame M E K H)} : Silent t (.resume .done) below →
      Binding t p (.perform (.atEnd p (.cancel t)))
        (.acts p [.announce name (Point.label p), .spawn t] (.task t) :: below)

theorem Act.IsMere.handsOver (h : act.IsMere) : act.handsOver t = false := by
  cases act <;> first | rfl | exact h.elim

theorem silent_of_bare (h : thread.IsBare) : Silent t thread.control thread.stack := by
  intro q act hdue
  rw [h.dues] at hdue
  cases hdue

theorem Silent.resume (h : Silent t control stack) {reply : Reply M K} :
    Silent t (.resume reply : Control M E K H) stack := by
  intro q act hdue
  rcases mem_duesOf.mp hdue with hcontrol | hframes
  · cases hcontrol
  · exact h q act (mem_duesOf.mpr (.inr hframes))

theorem Binding.ne_nil (h : Binding t p control stack) : stack ≠ [] := by
  cases h <;> simp

theorem Silent.acts {todo : List (Act M E K)} {answer reply : Reply M K}
    (h : Silent t (.resume reply) stack) (htodo : ∀ act ∈ todo, act.handsOver t = false)
    (other : Reply M K) :
    Silent t (.resume other : Control M E K H) (.acts p todo answer :: stack) := by
  intro q act hdue
  rcases mem_duesOf.mp hdue with hcontrol | ⟨frame, hframe, hdue⟩
  · cases hcontrol
  rcases List.mem_cons.mp hframe with rfl | hold
  · obtain ⟨due, hmem, heq⟩ := List.mem_map.mp hdue
    cases heq
    exact htodo _ hmem
  · exact h q act (mem_duesOf.mpr (.inr ⟨frame, hold, hdue⟩))

/-- A thread that has no such notice to hand over does not come to have one, except by binding the
task. -/
theorem Silent.step (h : Silent t control stack) (hm : w.move client n stack control = some m)
    (hr : Rooted stack)
    (hb : ∀ p name producer config sink, control = .perform (.bind p name producer config sink) →
      (∃ point, w.points[p]? = some point) → t ≠ w.tasks.length) :
    Silent t m.control m.stack := by
  intro q act hdue
  rcases World.move_dues hm hr hdue with hold | hincurs
  · exact h q act hold
  cases hincurs with
  | mere hmere => exact hmere.handsOver
  | notifies => rfl
  | binds hp =>
    have hne := hb _ _ _ _ _ rfl ⟨_, hp⟩
    simpa [Act.handsOver] using Ne.symm hne
  | @closes _ _ _ ending _ _ _ _ hact =>
    cases ending <;>
      simp [Ending.acts, Ending.outcome, Ending.report, Ending.response] at hact <;>
      grind [Act.handsOver]

/-- Such a thread hands over no notice that cancels the task, unless the client's code does. -/
theorem Silent.not_handsOver (h : Silent t control stack)
    (hm : Moment.meddles t ⟨w, ⟨n, control, stack⟩⟩ = false) :
    Moment.handsOver t ⟨w, ⟨n, control, stack⟩⟩ = false := by
  cases hhands : Moment.handsOver t ⟨w, ⟨n, control, stack⟩⟩ with
  | false => rfl
  | true =>
    obtain ⟨q, rfl⟩ := Moment.handsOver_iff.mp hhands
    cases hholder : stack.head?.bind Frame.holder? with
    | none => simp [Moment.meddles, hhands, hholder] at hm
    | some holder =>
      have hdue := h holder (.call (.atEnd q (.cancel t))) (by simp [duesOf, Control.dues, hholder])
      simp [Act.handsOver] at hdue

theorem atEnd_leaves {point : Point M E K} {notice : Notice K}
    (h : w.atEnd n stack p point notice = some m) : m.control = .resume .done ∧
      (m.stack = stack ∨ ∃ todo, m.stack = .acts p todo .done :: stack ∧
        ∀ act ∈ todo, act.handsOver t = false) := by
  unfold World.atEnd at h
  dsimp only at h
  repeat' split at h
  all_goals cases h
  all_goals simp [Move.answer, Move.acts, Point.report, Act.handsOver]

/-- The call that binds the task goes on to reach the point, and then has nothing more to hand over. -/
theorem Binding.step (h : Binding t p control stack) (hm : w.move client n stack control = some m)
    (hp : ∃ point, w.points[p]? = some point) :
    (Moment.handsOver t ⟨w, ⟨n, control, stack⟩⟩ = false ∧ Binding t p m.control m.stack) ∨
      Moment.Binds t p ⟨w, ⟨n, control, stack⟩⟩ ∧ Silent t m.control m.stack := by
  cases h with
  | owes hbelow =>
    cases hm
    exact .inl ⟨rfl, .turns hbelow⟩
  | turns hbelow =>
    cases hm
    exact .inl ⟨rfl, .reaches hbelow⟩
  | @reaches name below hbelow =>
    right
    refine ⟨⟨hp, rfl, name, below, rfl⟩, ?_⟩
    obtain ⟨point, hp⟩ := hp
    simp only [World.move, World.perform, hp] at hm
    have hrest : Silent t (.resume .done)
        (.acts p [.announce name (Point.label p), .spawn t] (.task t) :: below) :=
      hbelow.acts (by simp [Act.handsOver]) .done
    obtain ⟨hcontrol, hstack | ⟨todo, hstack, htodo⟩⟩ := atEnd_leaves (t := t) hm
    · rw [hcontrol, hstack]
      exact hrest
    · rw [hcontrol, hstack]
      exact hrest.acts htodo .done

/-! ## Runs -/

/-- How far the task is tied to its point, with the moments at which notices were handed over that
cancel it. -/
inductive Tied (t : Nat) (w : World M E K H) : List (Moment M E K H) → Prop
  | unbound : w.tasks[t]? = none →
      (∀ thread ∈ w.threads, Silent t thread.control thread.stack) → Tied t w []
  | binding {task : Task K} {thread : Thread M E K H} : w.tasks[t]? = some task →
      thread ∈ w.threads → Binding t task.point thread.control thread.stack →
      (∀ other ∈ w.threads, other.id ≠ thread.id → Silent t other.control other.stack) → Tied t w []
  | bound {task : Task K} {b : Moment M E K H} : w.tasks[t]? = some task →
      (∀ thread ∈ w.threads, Silent t thread.control thread.stack) → b.Binds t task.point →
      Tied t w [b]

theorem handOvers_eq_nil {moment : Moment M E K H} (h : moment.handsOver t = false) :
    handOvers t [moment] = [] := by
  simp [handOvers, h]

section
variable (hw : w.Settled) (hthread : thread ∈ w.threads) (ho' : w'.Orderly)
variable (hm : w.move client thread.id thread.stack thread.control = some m)
variable (hsuccession : Succession thread m.control m.stack w.threads w'.threads)

include hsuccession in
theorem Succession.silent_others
    (h : ∀ other ∈ w.threads, other.id ≠ thread.id → Silent t other.control other.stack) :
    ∀ other ∈ w'.threads, other.id ≠ thread.id → Silent t other.control other.stack := by
  intro other hother hne
  rcases hsuccession.others_after hother with rfl | hbefore | hbare
  · exact absurd rfl hne
  · exact h other hbefore hne
  · exact silent_of_bare hbare

include ho' hsuccession in
theorem Succession.silent (hself : Silent t m.control m.stack)
    (h : ∀ other ∈ w.threads, other.id ≠ thread.id → Silent t other.control other.stack) :
    ∀ other ∈ w'.threads, Silent t other.control other.stack := by
  intro other hother
  by_cases hsame : other.id = thread.id
  · rw [ho'.eq_of_id_eq hother hsuccession.mem_after hsame]
    exact hself
  · exact hsuccession.silent_others h other hother hsame

include hw hthread hm

/-- A task that is there is not being bound. -/
theorem Silent.step_of_bound {task : Task K} (h : Silent t thread.control thread.stack)
    (htask : w.tasks[t]? = some task) : Silent t m.control m.stack := by
  apply h.step hm (hw.rooted.last thread hthread)
  intro _ _ _ _ _ _ _
  exact Nat.ne_of_lt (List.getElem?_eq_some_iff.mp htask).1

variable (htasks : w'.tasks = m.world.tasks)
include hsuccession htasks

/-- Another thread takes the step while the call is under way that binds the task. -/
theorem tied_beside_binding {task : Task K} {binder : Thread M E K H}
    (htask : w.tasks[t]? = some task) (hbinder : binder ∈ w.threads)
    (hne : thread.id ≠ binder.id) (hbinding : Binding t task.point binder.control binder.stack)
    (hothers : ∀ other ∈ w.threads, other.id ≠ binder.id → Silent t other.control other.stack) :
    Tied t w' [] := by
  obtain ⟨task', htask', hchanges⟩ := (World.move_tasks hm).get htask
  rw [← htasks] at htask'
  refine .binding htask' ?_ (hchanges.later.point ▸ hbinding) ?_
  · rcases hsuccession.others_before hbinder with rfl | hafter | hbare
    · exact absurd rfl hne
    · exact hafter
    · exact absurd hbare.stack_eq hbinding.ne_nil
  · intro other hother hne'
    rcases hsuccession.others_after hother with rfl | hbefore | hbare
    · exact (hothers thread hthread hne).step_of_bound hw hthread hm htask
    · exact hothers other hbefore hne'
    · exact silent_of_bare hbare

include ho'

/-- Nothing ties a task to a point before its binding begins. -/
theorem tied_of_unbound (hnone : w.tasks[t]? = none)
    (hsilent : ∀ other ∈ w.threads, Silent t other.control other.stack) : Tied t w' [] := by
  have hself := hsilent thread hthread
  by_cases hbind : ∃ p name producer config sink,
      thread.control = .perform (.bind p name producer config sink) ∧
        (∃ point, w.points[p]? = some point) ∧ t = w.tasks.length
  · obtain ⟨p, name, producer, config, sink, hcontrol, ⟨point, hp⟩, rfl⟩ := hbind
    rw [hcontrol] at hm
    simp only [World.move, World.perform, hp] at hm
    cases hm
    have htask : w'.tasks[w.tasks.length]? =
        some (.bound p name producer config (sink.getD point.sink)) := by
      simp [htasks, World.bind, Move.acts, Task.bound]
    refine .binding htask hsuccession.mem_after (.owes hself.resume) ?_
    exact hsuccession.silent_others fun other hother _ => hsilent other hother
  · have hself' : Silent t m.control m.stack := by
      apply hself.step hm (hw.rooted.last thread hthread)
      intro p name producer config sink hcontrol hp hlength
      exact hbind ⟨p, name, producer, config, sink, hcontrol, hp, hlength⟩
    refine .unbound ?_ (hsuccession.silent ho' hself' fun other hother _ => hsilent other hother)
    have hchange := World.move_tasks hm
    rw [htasks]
    cases hafter : m.world.tasks[t]? with
    | none => rfl
    | some task =>
      obtain ⟨hlength, p, point, name, producer, config, sink, hcontrol, hp, -⟩ :=
        hchange.new hnone hafter
      exact absurd ⟨p, name, producer, config, sink, hcontrol, ⟨point, hp⟩, hlength⟩ hbind

omit hw hthread in
/-- The call that binds the task takes the step: the notice is on its way, or reaches the point. -/
theorem tied_of_binding {task : Task K} (htask : w.tasks[t]? = some task)
    (hp : ∃ point, w.points[task.point]? = some point)
    (hbinding : Binding t task.point thread.control thread.stack)
    (hothers : ∀ other ∈ w.threads, other.id ≠ thread.id → Silent t other.control other.stack) :
    Tied t w' (handOvers t [⟨w, thread⟩]) := by
  obtain ⟨task', htask', hchanges⟩ := (World.move_tasks hm).get htask
  have hpoint := hchanges.later.point
  rw [← htasks] at htask'
  rcases hbinding.step hm hp with ⟨hhands, hbinding'⟩ | ⟨hbinds, hself⟩
  · rw [handOvers_eq_nil hhands]
    exact .binding htask' hsuccession.mem_after (hpoint ▸ hbinding')
      (hsuccession.silent_others hothers)
  · have hhands : Moment.handsOver t ⟨w, thread⟩ := Moment.handsOver_iff.mpr ⟨_, hbinds.control⟩
    have hone : handOvers t [(⟨w, thread⟩ : Moment M E K H)] = [⟨w, thread⟩] := by
      simp [handOvers, hhands]
    rw [hone]
    exact .bound htask' (hsuccession.silent ho' hself hothers) (hpoint ▸ hbinds)

end

theorem Tied.of_step {moments : List (Moment M E K H)} (h : Tied t w moments) (hw : w.Settled)
    (hg : w.Grounded) (ht : w.thread? n = some thread) (hs : w.step client n = some w')
    (hmeddles : Moment.meddles t ⟨w, thread⟩ = false) :
    Tied t w' (moments ++ handOvers t [⟨w, thread⟩]) := by
  obtain rfl := World.id_of_thread? ht
  obtain ⟨⟨m, hm, stepped⟩, ho'⟩ := World.step_stepped hw.orderly ht hs
  have htasks := World.step_tasks hm ht hs
  have hthread := World.mem_of_thread? ht
  have hsuccession := stepped.succession
  cases h with
  | unbound hnone hsilent =>
    rw [handOvers_eq_nil ((hsilent thread hthread).not_handsOver hmeddles)]
    exact tied_of_unbound hw hthread ho' hm hsuccession htasks hnone hsilent
  | @binding task binder htask hbinder hbinding hothers =>
    by_cases hsame : binder.id = thread.id
    · obtain rfl := hw.orderly.eq_of_id_eq hbinder hthread hsame
      exact tied_of_binding ho' hm hsuccession htasks htask (hg t task htask) hbinding hothers
    · rw [handOvers_eq_nil ((hothers thread hthread (Ne.symm hsame)).not_handsOver hmeddles)]
      exact tied_beside_binding hw hthread hm hsuccession htasks htask hbinder (Ne.symm hsame)
        hbinding hothers
  | @bound task b htask hsilent hbinds =>
    have hself := hsilent thread hthread
    obtain ⟨task', htask', hchanges⟩ := (World.move_tasks hm).get htask
    rw [handOvers_eq_nil (hself.not_handsOver hmeddles), List.append_nil]
    refine .bound (htasks ▸ htask') ?_ (hchanges.later.point ▸ hbinds)
    exact hsuccession.silent ho' (hself.step_of_bound hw hthread hm htask)
      fun other hother _ => hsilent other hother

theorem Tied.of_between {moments : List (Moment M E K H)} (h : Tied t w moments) (hw : w.Sound)
    (hb : Between client w w') : Tied t w' moments := by
  obtain ⟨hinterlude, ho'⟩ := World.between_interlude hw.orderly hb
  obtain ⟨u, hturns⟩ := World.between_tasks hb
  have silent {other : Thread M E K H} (hother : other ∈ w'.threads)
      (h : other ∈ w.threads → Silent t other.control other.stack) :
      Silent t other.control other.stack := by
    rcases World.between_threads hb hother with hbefore | hscheduled
    · exact h hbefore
    · intro q act hdue
      exact (hscheduled.dues hdue).handsOver
  cases h with
  | unbound hnone hsilent =>
    exact .unbound (hturns.none hnone) fun other hother => silent hother (hsilent other)
  | binding htask hbinder hbinding hothers =>
    obtain ⟨task', htask', hsame⟩ := hturns.get htask
    have hfound := World.keeps_of_interlude hinterlude ho' (hw.orderly.thread?_eq hbinder)
      hbinding.ne_nil
    refine .binding htask' (World.mem_of_thread? hfound) (hsame.point ▸ hbinding) ?_
    intro other hother hne
    exact silent hother fun hbefore => hothers other hbefore hne
  | bound htask hsilent hbinds =>
    obtain ⟨task', htask', hsame⟩ := hturns.get htask
    refine .bound htask' ?_ (hsame.point ▸ hbinds)
    exact fun other hother => silent hother (hsilent other)

theorem Run.grounded {host : H} {trail : List (Moment M E K H)}
    (run : Run client (.initial host) trail w) (hs : SinksReturn trail) : w.Grounded := by
  induction run with
  | refl => exact World.initial_grounded host
  | step _ ht hstep ih => exact (ih (sinksReturn_append.mp hs).1).of_step ht hstep
  | between before hb ih =>
    exact (ih hs).of_between (before.sound (World.initial_sound host) hs).orderly hb

theorem Run.tied {host : H} {trail : List (Moment M E K H)}
    (run : Run client (.initial host) trail w) (hs : SinksReturn trail)
    (hm : ∀ m ∈ trail, m.meddles t = false) : Tied t w (handOvers t trail) := by
  induction run with
  | refl =>
    refine .unbound rfl ?_
    intro other hother
    rw [List.mem_singleton.mp hother]
    exact silent_of_bare trivial
  | @step trail w w' n thread before ht hstep ih =>
    obtain ⟨hs, hlast⟩ := sinksReturn_append.mp hs
    rw [handOvers, List.filter_append]
    exact (ih hs fun m hmem => hm m (List.mem_append_left _ hmem)).of_step
      (before.settled (World.initial_settled host) hs) (before.grounded hs) ht hstep
      (hm _ (List.mem_append_right _ List.mem_cons_self))
  | between before hb ih =>
    exact (ih hs hm).of_between (before.sound (World.initial_sound host) hs) hb

end Exchange
