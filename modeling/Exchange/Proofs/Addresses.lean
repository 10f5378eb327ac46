import Exchange.Proofs.HandOver
import Exchange.Proofs.Hands

/-!
To whom diagnostics are addressed. A point reports to the sink that it was created with, a binding to the sink
that the task was bound with; neither ever changes, and nobody else reports on their behalf.
-/

namespace Exchange
set_option autoImplicit false

variable {M E K H : Type} {client : Client M E K H} {w w' : World M E K H} {t n p : Nat}
  {thread : Thread M E K H}
variable {control : Control M E K H} {stack : List (Frame M E K H)} {m : Move M E K H}
variable {trail : List (Moment M E K H)} {host : H}

/-- On whose behalf a diagnostic is reported. -/
inductive Author where
  | point (number : Nat)
  /-- The binding of a task. -/
  | binding (task : Nat)
deriving DecidableEq

/-- On whose behalf the thread acts with those frames. -/
def author? : List (Frame M E K H) → Option Author
  | .acts _ _ _ :: .turn t _ :: _ => some (.binding t)
  | .acts p _ _ :: _ => some (.point p)
  | .serving p :: _ => some (.point p)
  | _ => none

/-- The sink that is attached to a point or to a binding. -/
def World.sinkOf? (w : World M E K H) : Author → Option (Sink K)
  | .point p => w.sinks[p]?
  | .binding t => w.tasks[t]?.map (·.sink)

/-- The act reports to that sink, if to any, and is no call that asks for a report. -/
def Act.Addresses (sink : Sink K) : Act M E K → Prop
  | .report other _ _ _ => other = sink
  | .call (.report _ _ _ _) => False
  | _ => True

namespace World

theorem sinkOf?_point {point : Point M E K} (hp : w.points[p]? = some point) :
    w.sinkOf? (.point p) = some point.sink := by simp [sinkOf?, sinks, hp]

theorem sinkOf?_binding {task : Task K} (ht : w.tasks[t]? = some task) :
    w.sinkOf? (.binding t) = some task.sink := by simp [sinkOf?, ht]

/-- What is attached stays attached. -/
def Keeps (w w' : World M E K H) : Prop :=
  ∀ author sink, w.sinkOf? author = some sink → w'.sinkOf? author = some sink

theorem keeps_refl : Keeps w w := fun _ _ h => h

theorem keeps_of_sinks (hsinks : w.sinks <+: w'.sinks)
    (htasks : ∀ (u : Nat) (task : Task K), w.tasks[u]? = some task →
      ∃ task', w'.tasks[u]? = some task' ∧ task'.sink = task.sink) : Keeps w w' := by
  intro author sink h
  cases author with
  | point p =>
    obtain ⟨rest, hrest⟩ := hsinks
    have hlt := (List.getElem?_eq_some_iff.mp h).1
    rw [sinkOf?, ← hrest, List.getElem?_append_left hlt]
    exact h
  | binding u =>
    obtain ⟨task, hu, rfl⟩ := Option.map_eq_some_iff.mp h
    obtain ⟨task', hu', hsame⟩ := htasks u task hu
    rw [sinkOf?_binding hu', hsame]

theorem keeps_move (hm : w.move client n stack control = some m) : Keeps w m.world := by
  refine keeps_of_sinks (move_sinks hm) ?_
  intro u task hu
  obtain ⟨task', hu', hchanges⟩ := (move_tasks hm).get hu
  exact ⟨task', hu', hchanges.later.sink⟩

theorem keeps_between (ho : w.Orderly) (hb : Between client w w') : Keeps w w' := by
  obtain ⟨⟨hpoints, -⟩, -⟩ := between_interlude ho hb
  obtain ⟨v, hturns⟩ := between_tasks hb
  refine keeps_of_sinks (sinks_eq hpoints ▸ List.prefix_rfl) ?_
  intro u task hu
  obtain ⟨task', hu', hsame⟩ := hturns.get hu
  exact ⟨task', hu', hsame.sink⟩

end World

theorem Run.keeps {u : World M E K H} (run : Run client u trail w) (ho : u.Orderly) :
    w.Orderly ∧ u.Keeps w := by
  induction run with
  | refl => exact ⟨ho, World.keeps_refl⟩
  | step _ ht hs ih =>
    obtain ⟨hw, hkeeps⟩ := ih
    obtain ⟨-, ho'⟩ := World.step_stepped hw ht hs
    obtain ⟨m, hm, threads, rfl⟩ := World.move_of_step ht hs
    have hstep : World.Keeps _ { m.world with threads } := World.keeps_move hm
    exact ⟨ho', fun author sink h => hstep author sink (hkeeps author sink h)⟩
  | between _ hb ih =>
    obtain ⟨hw, hkeeps⟩ := ih
    obtain ⟨-, ho'⟩ := World.between_interlude hw hb
    exact ⟨ho', fun author sink h => World.keeps_between hw hb author sink (hkeeps author sink h)⟩

/-! ## Threads -/

/-- The author of what is done above the frames has a sink, to which that is addressed. -/
def World.Addresses (w : World M E K H) (frames : List (Frame M E K H)) (act : Act M E K) : Prop :=
  ∀ author, author? frames = some author → ∃ sink, w.sinkOf? author = some sink ∧ act.Addresses sink

/-- Whatever calls have still to report goes to the sinks of their authors. -/
def World.Addressed (w : World M E K H) : List (Frame M E K H) → Prop
  | [] => True
  | frame :: stack =>
    (∀ p todo answer, frame = .acts p todo answer → ∀ act ∈ todo, w.Addresses (frame :: stack) act) ∧
      w.Addressed stack

structure Thread.Addressed (w : World M E K H) (thread : Thread M E K H) : Prop where
  stack : w.Addressed thread.stack
  acts : ∀ act, thread.control = .act act → w.Addresses thread.stack act
  calls : ∀ op, thread.control = .perform op → w.Addresses thread.stack (.call op)

namespace World

theorem Keeps.addresses (h : Keeps w w') {frames : List (Frame M E K H)} {act : Act M E K}
    (ha : w.Addresses frames act) : w'.Addresses frames act := by
  intro author hauthor
  obtain ⟨sink, hsink, hact⟩ := ha author hauthor
  exact ⟨sink, h author sink hsink, hact⟩

theorem Keeps.addressed (h : Keeps w w') {frames : List (Frame M E K H)} (ha : w.Addressed frames) :
    w'.Addressed frames := by
  induction frames with
  | nil => trivial
  | cons frame frames ih =>
    refine ⟨?_, ih ha.2⟩
    intro p todo answer hframe act hact
    exact h.addresses (ha.1 p todo answer hframe act hact)

theorem Keeps.thread_addressed (h : Keeps w w') (ha : thread.Addressed w) : thread.Addressed w' := by
  constructor
  · exact h.addressed ha.stack
  · intro act hact
    exact h.addresses (ha.acts act hact)
  · intro op hop
    exact h.addresses (ha.calls op hop)

/-! ### What calls leave to be done -/

section
variable {point : Point M E K} {q : Nat} {todo : List (Act M E K)} {answer : Reply M K}
variable (hstack : m.stack = .acts q todo answer :: stack)
include hstack

/-- What a call on a point leaves to be done is addressed to the sink of the point. -/
theorem perform_addresses {op : Op M E K} (hm : w.perform client n stack op = some m) :
    ∃ point, w.points[q]? = some point ∧ ∀ act ∈ todo, act.Addresses point.sink := by
  cases op <;> simp only [perform, register, unregister, atEnd, push, poke, bind] at hm
  all_goals repeat' split at hm
  all_goals cases hm
  all_goals cases hstack
  all_goals refine ⟨_, ‹_›, ?_⟩
  all_goals simp [Point.report, Act.Addresses]

end

/-- What is done at a producer's end is addressed to the sink of its binding. -/
theorem ending_addresses {u : Nat} {task : Task K} {ending : Ending M K} :
    ∀ act ∈ ending.acts client u task, act.Addresses task.sink := by
  intro act hact
  rcases List.mem_append.mp hact with hact | hact
  · rcases List.mem_append.mp hact with hact | hact
    · split at hact
      · rw [List.mem_singleton.mp hact]
        trivial
      · cases hact
    · obtain ⟨report, -, rfl⟩ := List.mem_map.mp hact
      rfl
  · obtain ⟨response, -, rfl⟩ := List.mem_map.mp hact
    trivial

theorem Turned.addresses {u q : Nat} {task : Task K} {stage : Stage K} {todo : List (Act M E K)}
    {answer : Reply M K} {rest : List (Frame M E K H)} (h : Turned client w u task stage control m)
    (hstack : m.stack = .acts q todo answer :: rest) : ∀ act ∈ todo, act.Addresses task.sink := by
  cases h with
  | asks hasked =>
    cases hasked with
    | cancelled =>
      cases hstack
      exact ending_addresses
    | polls => cases hstack
  | announces =>
    cases hstack
    intro act hact
    rw [List.mem_singleton.mp hact]
    rfl
  | closes =>
    cases hstack
    exact ending_addresses
  | _ => cases hstack

theorem Entry.not_report {event : Event M E} (entry : Entry K) {sink : Sink K} {kind : Kind}
    {label reason : Option String} : entry.act event ≠ .report sink kind label reason := by
  cases entry <;> simp [Entry.act]

theorem serve_addresses {point : Point M E K} {sink : Sink K} {kind : Kind} {label reason : Option String}
    (h : (w.serve n stack p point).control = .act (.report sink kind label reason)) :
    sink = point.sink := by
  unfold serve at h
  dsimp only at h
  repeat' split at h
  all_goals first | exact absurd (Control.act.inj h) (Entry.not_report _) | cases h
  rfl

/-! ### Steps -/

theorem author?_acts {todo : List (Act M E K)} {answer : Reply M K}
    (h : ∀ frame, stack.head? = some frame → frame.isTurn = false) :
    author? (.acts p todo answer :: stack) = some (.point p) := by
  cases stack with
  | nil => rfl
  | cons frame stack =>
    cases frame with
    | turn => cases h _ rfl
    | _ => rfl

/-- The author is the same until all is done. -/
theorem author?_todo {todo todo' : List (Act M E K)} {answer answer' : Reply M K} :
    author? (.acts p todo answer :: stack) = author? (.acts p todo' answer' :: stack) := by
  cases stack with
  | nil => rfl
  | cons frame stack => cases frame <;> rfl

/-- A frame that is no call with something left to do owes nothing to anybody. -/
theorem Addressed.cons (h : w.Addressed stack) {frame : Frame M E K H}
    (hf : ∀ p todo answer, frame ≠ .acts p todo answer) : w.Addressed (frame :: stack) :=
  ⟨fun p todo answer hframe => absurd hframe (hf p todo answer), h⟩

theorem Addressed.append (h : w.Addressed stack) {frames : List (Frame M E K H)}
    (hf : ∀ frame ∈ frames, frame.IsFanOut) : w.Addressed (frames ++ stack) := by
  induction frames with
  | nil => exact h
  | cons frame frames ih =>
    refine Addressed.cons (ih fun other hother => hf other (List.mem_cons_of_mem _ hother)) ?_
    rintro p todo answer rfl
    exact (hf _ List.mem_cons_self).elim

/-- A thread that is about to do nothing for a call is only bound by its stack. -/
theorem addressed_of_stack (h : w.Addressed stack) (hc : ¬control.IsDoing) :
    Thread.Addressed w ⟨t, control, stack⟩ := by
  refine ⟨h, ?_, ?_⟩
  · rintro act rfl
    exact absurd trivial hc
  · rintro op rfl
    exact absurd trivial hc

/-- What a binding has to do when something comes back to its turn. -/
theorem closing_addresses {u q : Nat} {stage stage' : Stage K} {todo : List (Act M E K)}
    (hm : w.move client n [.turn u stage] control =
      some ⟨w', .resume .done, [.acts q todo .done, .turn u stage']⟩) (hreturn : control.IsReturn) :
    ∀ act ∈ todo, w'.Addresses [.acts q todo .done, .turn u stage'] act := by
  rintro act hact author hauthor
  cases hauthor
  cases ht : w.tasks[u]? with
  | some task =>
    have hact := (turn_turned hm hreturn ht).addresses rfl act hact
    exact ⟨task.sink, keeps_move hm _ _ (sinkOf?_binding ht), hact⟩
  | none =>
    cases control with
    | resume => simp [move, resume, ht, Move.answer] at hm
    | unwind => simp [move, unwind, ht, Move.answer] at hm
    | _ => exact hreturn.elim

/-- The report of an event that came too late. -/
theorem drop_addresses {reply : Reply M K} {sink : Sink K} {kind : Kind} {label reason : Option String}
    (hm : w.move client n (.serving p :: stack) (.resume reply) =
      some ⟨w', .act (.report sink kind label reason), .serving p :: stack⟩) :
    w'.Addresses (.serving p :: stack) (.report sink kind label reason) := by
  rintro author hauthor
  cases hauthor
  cases hp : w.points[p]? with
  | some point =>
    have hkeeps : Keeps w w' := keeps_move hm
    simp only [move, resume, hp, Option.some.injEq] at hm
    exact ⟨point.sink, hkeeps _ _ (sinkOf?_point hp), serve_addresses (congrArg Move.control hm)⟩
  | none => simp [move, resume, hp, Move.answer] at hm

/-- The report of a panic in a delivery. -/
theorem catch_addresses {payload : Payload} {sink : Sink K} {kind : Kind} {label reason : Option String}
    (hm : w.move client n (.delivering p :: .serving p :: stack) (.unwind payload) =
      some ⟨w', .act (.report sink kind label reason), .serving p :: stack⟩) :
    w'.Addresses (.serving p :: stack) (.report sink kind label reason) := by
  rintro author hauthor
  cases hauthor
  cases hp : w.points[p]? with
  | some point =>
    have hkeeps : Keeps w w' := keeps_move hm
    simp only [move, unwind, hp, Option.some.injEq, Move.mk.injEq, Control.act.injEq, Point.report,
      Act.report.injEq] at hm
    exact ⟨point.sink, hkeeps _ _ (sinkOf?_point hp), hm.2.1.1.symm⟩
  | none => simp [move, unwind, hp, Move.answer] at hm

/-- Whatever is left to do after a step goes to the sink of its author. -/
theorem move_addressed (hm : w.move client n stack control = some m)
    (hr : Exchange.Rooted stack) (hp : Thread.Placed ⟨t, control, stack⟩)
    (ha : Thread.Addressed w ⟨t, control, stack⟩) : Thread.Addressed m.world ⟨t, m.control, m.stack⟩ := by
  have hkeeps := keeps_move hm
  obtain ⟨hstack, hacts, hcalls⟩ := hkeeps.thread_addressed ha
  dsimp only at hstack hacts hcalls
  cases move_stride hm with
  | returns => exact addressed_of_stack hstack not_false
  | panics => exact addressed_of_stack hstack not_false
  | changes => exact addressed_of_stack hstack not_false
  | calls =>
    refine ⟨hstack.cons (by simp), by simp, ?_⟩
    intro op _ author hauthor
    cases hauthor
  | answers => exact addressed_of_stack hstack not_false
  | owes =>
    obtain ⟨point, hpoint, htodo⟩ := perform_addresses rfl hm
    refine addressed_of_stack ⟨?_, hstack⟩ not_false
    rintro p todo answer hframe act hact author hauthor
    cases hframe
    rw [author?_acts fun frame hframe => (hp.plain trivial frame hframe).2] at hauthor
    cases hauthor
    exact ⟨point.sink, hkeeps _ _ (sinkOf?_point hpoint), htodo act hact⟩
  | serves => exact addressed_of_stack (hstack.cons (by simp)) not_false
  | emits =>
    refine ⟨hstack, ?_, by simp⟩
    intro act _ author hauthor
    obtain ⟨sink, -, hfalse⟩ := hcalls _ rfl author hauthor
    exact hfalse.elim
  | attempts => exact addressed_of_stack (hstack.cons (by simp)) not_false
  | forks => exact addressed_of_stack hstack not_false
  | forksAndWaits => exact addressed_of_stack hstack not_false
  | joins => exact addressed_of_stack hstack not_false
  | joinsPanic => exact addressed_of_stack hstack not_false
  | @acts act _ _ next _ hleads =>
    refine ⟨hstack, ?_, ?_⟩
    · rintro other rfl
      exact absurd hleads Act.not_leadsTo_act
    · rintro op rfl
      rcases hleads.control_cases with ⟨_, _, _, _, -, h⟩ | h | ⟨-, ⟨_, h⟩ | ⟨_, rfl, h⟩⟩
      · cases h
      · cases h
      · cases h
      · cases h
        exact hacts _ rfl
  | tells => exact addressed_of_stack (hstack.cons (by simp)) not_false
  | records => exact addressed_of_stack hstack not_false
  | fansOut hf => exact addressed_of_stack (hstack.append (List.forall_mem_singleton.mpr hf)) not_false
  | goesOn => exact addressed_of_stack hstack.2 not_false
  | handsOn _ _ _ hf =>
    exact addressed_of_stack (Addressed.append hstack.2 (List.forall_mem_singleton.mpr hf)) not_false
  | fansOn frames _ _ _ hf => exact addressed_of_stack (Addressed.append hstack.2 hf) not_false
  | runsOn => exact addressed_of_stack (Addressed.cons hstack.2 (by simp)) not_false
  | @closes _ rest u stage _ q todo stage' hreturn =>
    obtain rfl := hr.1 rfl
    refine addressed_of_stack ⟨?_, Addressed.cons hstack.2 (by simp)⟩ not_false
    rintro p todo answer hframe
    cases hframe
    exact closing_addresses hm hreturn
  | pops => exact addressed_of_stack hstack.2 not_false
  | unwinds => exact addressed_of_stack hstack.2 not_false
  | settles => exact addressed_of_stack hstack.2 not_false
  | @proceeds _ rest q first todo answer =>
    refine ⟨⟨?_, hstack.2⟩, ?_, by simp⟩
    · rintro p others answer' hframe act hact
      cases hframe
      rw [Addresses, author?_todo]
      exact hstack.1 _ _ _ rfl act (List.mem_cons_of_mem _ hact)
    · rintro act hact
      cases hact
      rw [Addresses, author?_todo]
      exact hstack.1 _ _ _ rfl _ List.mem_cons_self
  | gives =>
    refine ⟨(hstack.cons (by simp)), ?_, by simp⟩
    intro act _ author hauthor
    cases hauthor
  | advances => exact addressed_of_stack hstack not_false
  | @drops _ rest p _ sink event =>
    refine ⟨hstack, ?_, by simp⟩
    rintro act hact
    cases hact
    exact drop_addresses hm
  | retires => exact addressed_of_stack hstack.2 not_false
  | leaves => exact addressed_of_stack hstack.2 not_false
  | @catches payload rest p _ sink =>
    refine ⟨hstack.2, ?_, by simp⟩
    rintro act hact
    cases hact
    obtain ⟨below, rfl⟩ := List.head?_eq_some_iff.mp (hp.seated.1 p rfl)
    exact catch_addresses hm

theorem IsBare.addressed (h : thread.IsBare) : thread.Addressed w := by
  obtain ⟨n, control, stack⟩ := thread
  obtain rfl : stack = [] := h.stack_eq
  refine addressed_of_stack trivial ?_
  cases control <;> first | exact h.elim | exact not_false

theorem Scheduled.addressed (h : Scheduled client w thread) : thread.Addressed w := by
  have nothing : w.Addressed ([] : List (Frame M E K H)) := trivial
  cases h with
  | code => exact addressed_of_stack nothing not_false
  | @turn t ready m _ hbegun =>
    cases hbegun with
    | passes => exact addressed_of_stack nothing not_false
    | starts => exact addressed_of_stack (nothing.cons (by simp)) not_false
    | asks ht _ hasked =>
      cases hasked with
      | polls => exact addressed_of_stack (nothing.cons (by simp)) not_false
      | cancelled =>
        refine addressed_of_stack ⟨?_, nothing.cons (by simp)⟩ not_false
        rintro p todo answer hframe act hact author hauthor
        cases hframe
        cases hauthor
        exact ⟨_, sinkOf?_binding ht, ending_addresses act hact⟩

/-- What holds of every exchange, whatever panics there are. -/
structure WellAddressed (w : World M E K H) : Prop where
  placed : w.Placed
  rooted : w.Rooted
  addressed : ∀ thread ∈ w.threads, thread.Addressed w

theorem initial_wellAddressed (host : H) : (initial host : World M E K H).WellAddressed := by
  refine ⟨initial_placed host, initial_rooted host, ?_⟩
  intro thread hmem
  rw [List.mem_singleton.mp hmem]
  exact addressed_of_stack trivial not_false

theorem WellAddressed.of_step (h : w.WellAddressed) (ht : w.thread? t = some thread)
    (hs : w.step client t = some w') : w'.WellAddressed := by
  have ho := h.placed.orderly
  refine ⟨h.placed.of_step ht hs, h.rooted.of_step ho ht hs, ?_⟩
  obtain ⟨⟨m, hm, stepped⟩, -⟩ := step_stepped ho ht hs
  have hmem := mem_of_thread? ht
  have hkeeps : Keeps w w' := ((Run.refl.step ht hs).keeps ho).2
  have hafter : Keeps m.world w' := by
    obtain ⟨m', hm', threads, rfl⟩ := move_of_step ht hs
    cases hm.symm.trans hm'
    exact keeps_refl
  intro other hother
  rcases stepped.succession.others_after hother with rfl | hbefore | hbare
  · exact hafter.thread_addressed
      (move_addressed hm (h.rooted.last thread hmem) (h.placed.placed thread hmem) (h.addressed thread hmem))
  · exact hkeeps.thread_addressed (h.addressed other hbefore)
  · exact IsBare.addressed hbare

theorem WellAddressed.of_between (h : w.WellAddressed) (hb : Between client w w') : w'.WellAddressed := by
  refine ⟨h.placed.of_between hb, h.rooted.of_between hb, ?_⟩
  intro other hother
  apply (keeps_between h.placed.orderly hb).thread_addressed
  rcases between_threads hb hother with hbefore | hscheduled
  · exact h.addressed other hbefore
  · exact hscheduled.addressed

end World

theorem Run.wellAddressed (run : Run client (.initial host) trail w) : w.WellAddressed := by
  induction run with
  | refl => exact World.initial_wellAddressed host
  | step _ ht hs ih => exact ih.of_step ht hs
  | between _ hb ih => exact ih.of_between hb

/-- What is reported on behalf of a point or a binding goes to the sink that is attached to it. -/
theorem Run.reports_to_sink {m : Moment M E K H} {sink : Sink K} {diagnostic : Diagnostic} {author : Author}
    (run : Run client (.initial host) trail w) (hmem : m ∈ trail)
    (hreport : m.diagnosis? = some (sink, diagnostic)) (hauthor : author? m.thread.stack = some author) :
    w.sinkOf? author = some sink := by
  obtain ⟨before, after, htrail⟩ := List.append_of_mem hmem
  obtain ⟨hbefore, n, v, ht, hs, hafter⟩ := run.split htrail
  have hwell := hbefore.wellAddressed
  have hkeeps := (((Run.refl.step ht hs).trans hafter).keeps hwell.placed.orderly).2
  have haddressed := hwell.addressed m.thread (World.mem_of_thread? ht)
  obtain ⟨world, id, control, stack⟩ := m
  unfold Moment.diagnosis? at hreport
  split at hreport
  · rename_i hcontrol
    cases hreport
    obtain ⟨other, hother, rfl⟩ := haddressed.acts _ hcontrol author hauthor
    exact hkeeps author _ hother
  · cases hreport

end Exchange
