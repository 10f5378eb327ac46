import Exchange.Proofs.Account
import Exchange.Proofs.Hands

/-!
Stints. When its task has a turn the code of a producer runs above the turn until something comes back, a
reply or a panic; that is one stint, whatever the code does meanwhile and whatever other threads do. None of
this depends on the sinks: a panic of theirs ends the stint as any other panic does.
-/

namespace Exchange
set_option autoImplicit false

variable {M E K H : Type} {client : Client M E K H} {u w w' : World M E K H} {t n : Nat}
  {thread : Thread M E K H}
variable {control : Control M E K H} {stack : List (Frame M E K H)} {m : Move M E K H}
variable {trail : List (Moment M E K H)} {host : H} {task task' : Task K}

/-! ## The main thread -/

theorem World.perform_await {op : Op M E K} {child : Nat} (hm : w.perform client n stack op = some m)
    (h : m.control = .await child) : child = w.nextThread := by
  cases op <;> simp only [perform, register, unregister, atEnd, push, poke, bind] at hm
  case fork code wait =>
    cases hm
    cases wait <;> cases h
    rfl
  all_goals repeat' split at hm
  all_goals cases hm
  all_goals cases h

/-- A thread waits for no other than the one that it has just begun. -/
theorem World.await_of_move {child : Nat} (hm : w.move client n stack control = some m)
    (h : m.control = .await child) : child = w.nextThread := by
  cases control with
  | perform op => exact perform_await hm h
  | act due =>
    have hleads := (move_stride hm).of_act.2.1
    rw [h] at hleads
    rcases hleads.control_cases with ⟨_, _, _, _, -, h⟩ | h | ⟨-, ⟨_, h⟩ | ⟨_, -, h⟩⟩ <;> cases h
  | _ =>
    cases move_stride hm <;> cases h

theorem Thread.Begins.not_await (h : thread.Begins) (child : Nat) : thread.control ≠ .await child := by
  cases h with
  | bare h =>
    intro hawait
    obtain ⟨id, control, stack⟩ := thread
    cases hawait
    cases stack <;> exact h
  | turn => nofun
  | closing => nofun

namespace World

/-- What holds of every exchange, however its sinks behave: turns are on the main thread, which nothing
takes away. -/
structure Staged (w : World M E K H) : Prop extends w.Placed where
  rooted : w.Rooted
  main : mainThread ∈ w.threads.map (·.id)
  awaited : ∀ thread ∈ w.threads, thread.control ≠ .await mainThread

theorem Staged.main_thread (h : w.Staged) : ∃ main, w.thread? mainThread = some main := by
  obtain ⟨main, hmem, hid⟩ := List.mem_map.mp h.main
  exact ⟨main, hid ▸ h.orderly.thread?_eq hmem⟩

theorem initial_staged (host : H) : (initial host : World M E K H).Staged := by
  refine ⟨initial_placed host, initial_rooted host, List.mem_singleton.mpr rfl, ?_⟩
  intro thread hmem
  rw [List.mem_singleton.mp hmem]
  nofun

/-- A step keeps all threads but one that is waited for. -/
theorem main_of_step (h : w.Staged) (ht : w.thread? n = some thread) (hs : w.step client n = some w') :
    mainThread ∈ w'.threads.map (·.id) := by
  obtain ⟨current, hcurrent, hs⟩ := Option.bind_eq_some_iff.mp hs
  cases ht.symm.trans hcurrent
  obtain ⟨m, hm, hs⟩ := Option.bind_eq_some_iff.mp hs
  cases hs
  change mainThread ∈ (moved n m.control m.stack m.world.threads).map (·.id)
  rw [map_id_moved]
  rcases (move_stride hm).threads with hsame | hforked | ⟨child, hawait, hjoined⟩
  · exact hsame.threads ▸ h.main
  · obtain ⟨code, hthreads⟩ := hforked.threads
    obtain ⟨main, hmem, hid⟩ := List.mem_map.mp h.main
    rw [hthreads]
    refine List.mem_map.mpr ⟨main, List.mem_flatMap.mpr ⟨main, hmem, ?_⟩, hid⟩
    split <;> simp
  · obtain ⟨main, hmem, hid⟩ := List.mem_map.mp h.main
    have hne : child ≠ mainThread := by
      rintro rfl
      exact h.awaited thread (mem_of_thread? ht) hawait
    rw [hjoined.threads]
    refine List.mem_map.mpr ⟨main, List.mem_filter.mpr ⟨hmem, ?_⟩, hid⟩
    rw [hid]
    exact decide_eq_true hne.symm

theorem Staged.of_step (h : w.Staged) (ht : w.thread? n = some thread)
    (hs : w.step client n = some w') : w'.Staged := by
  obtain ⟨⟨m, hm, stepped⟩, -⟩ := step_stepped h.orderly ht hs
  refine ⟨h.toPlaced.of_step ht hs, h.rooted.of_step h.orderly ht hs, main_of_step h ht hs, ?_⟩
  intro other hother hawait
  rcases stepped.succession.others_after hother with rfl | hbefore | hbare
  · obtain ⟨main, hmain⟩ := h.main_thread
    have hfresh := h.orderly.fresh main (mem_of_thread? hmain)
    rw [id_of_thread? hmain, ← await_of_move hm hawait] at hfresh
    exact Nat.lt_irrefl _ hfresh
  · exact h.awaited other hbefore hawait
  · exact Thread.Begins.not_await (.bare hbare) _ hawait

theorem Staged.of_between (h : w.Staged) (hb : Between client w w') : w'.Staged := by
  obtain ⟨⟨-, come, gone, kept, hbefore, hafter, -, hcome⟩, -⟩ := between_interlude h.orderly hb
  refine ⟨h.toPlaced.of_between hb, h.rooted.of_between hb, ?_, ?_⟩
  · have assigned {v : World M E K H} (control : Control M E K H) (stack : List (Frame M E K H))
        (hsame : v.threads = w.threads) :
        mainThread ∈ ((v.assign control stack).threads).map (·.id) := by
      change mainThread ∈ (moved mainThread control stack v.threads).map (·.id)
      rw [map_id_moved, hsame]
      exact h.main
    cases hb with
    | code => exact assigned _ _ rfl
    | @turn u ready =>
      have hcalm : Calm { w with ready } ({ w with ready }.beginTurn client [] u).world :=
        beginTurn_calm
      exact assigned _ _ hcalm.threads
    | clock time =>
      rw [(calm_advance time).threads]
      exact h.main
    | host => exact h.main
    | reap =>
      obtain ⟨main, hmem, hid⟩ := List.mem_map.mp h.main
      refine List.mem_map.mpr ⟨main, List.mem_filter.mpr ⟨hmem, ?_⟩, hid⟩
      rw [hid]
      rfl
  · intro other hother
    rcases List.mem_append.mp (hafter.mem_iff.mp hother) with hnew | hold
    · exact (hcome other hnew).not_await _
    · exact h.awaited other (hbefore.mem_iff.mpr (List.mem_append_right _ hold))

theorem Staged.thread?_assign (h : w.Staged) (hc : w'.threads = w.threads) (control : Control M E K H)
    (stack : List (Frame M E K H)) :
    (w'.assign control stack).thread? mainThread = some ⟨mainThread, control, stack⟩ := by
  obtain ⟨main, hmain⟩ := h.main_thread
  have ho : Orderly { w with threads := moved mainThread control stack w.threads } := h.orderly.moved
  have hthreads : (w'.assign control stack).threads = moved mainThread control stack w.threads := by
    change moved mainThread control stack w'.threads = _
    rw [hc]
  have hmem : ⟨mainThread, control, stack⟩ ∈ moved mainThread control stack w.threads := by
    refine List.mem_map.mpr ⟨main, mem_of_thread? hmain, ?_⟩
    rw [if_pos (id_of_thread? hmain), id_of_thread? hmain]
  rw [thread?, hthreads]
  exact ho.thread?_eq hmem

theorem isIdle_eq {main : Thread M E K H} (h : w.thread? mainThread = some main) :
    w.isIdle = main.isOver := by
  rw [isIdle, h]
  rfl

/-- While the main thread is idle no turn is under way. -/
theorem Staged.unattended (h : w.Staged) (hidle : w.isIdle) : w.Unattended t := by
  intro thread hmem hturn
  have hid := h.rooted.main thread hmem t hturn
  have hmain := hid ▸ h.orderly.thread?_eq hmem
  rw [isIdle_eq hmain] at hidle
  exact not_inTurn_nil ((Thread.isBare_of_isOver hidle).stack_eq ▸ hturn)

/-- While the main thread is in the middle of something it takes steps itself or stays as it is. -/
theorem Staged.main_kept {main : Thread M E K H} (h : w.Staged)
    (hmain : w.thread? mainThread = some main) (hstack : main.stack ≠ [])
    (ht : w.thread? n = some thread) (hs : w.step client n = some w') :
    thread = main ∧ n = mainThread ∨ n ≠ mainThread ∧ w'.thread? mainThread = some main := by
  by_cases hn : n = mainThread
  · subst hn
    exact .inl ⟨Option.some.inj (ht.symm.trans hmain), rfl⟩
  · obtain ⟨⟨m, -, stepped⟩, ho⟩ := step_stepped h.orderly ht hs
    exact .inr ⟨hn, stepped.keeps ho hmain (Ne.symm hn) hstack⟩

end World

theorem Run.staged (run : Run client (.initial host) trail w) : w.Staged := by
  induction run with
  | refl => exact World.initial_staged host
  | step _ ht hs ih => exact ih.of_step ht hs
  | between _ hb ih => exact ih.of_between hb

/-! ## Code above a turn -/

/-- There is one turn in a stack, at one stage. -/
theorem Rooted.eq_of_mem {above : List (Frame M E K H)} {v : Nat} {stage stage' : Stage K}
    (h : Rooted (above ++ [.turn t stage])) (hmem : .turn v stage' ∈ above ++ [.turn t stage]) :
    v = t ∧ stage' = stage := by
  induction above with
  | nil =>
    cases List.mem_singleton.mp hmem
    exact ⟨rfl, rfl⟩
  | cons frame above ih =>
    rcases List.mem_cons.mp hmem with rfl | hmem
    · exact absurd (h.1 rfl) (by simp)
    · exact ih h.2 hmem

theorem Working.stack_eq {stage : Stage K} (h : Working t stage control stack) :
    ∃ above, stack = above ++ [.turn t stage] := by
  cases h with
  | runs => exact ⟨[], rfl⟩
  | gives => exact ⟨[], rfl⟩
  | panics => exact ⟨[], rfl⟩
  | @calls next _ above => exact ⟨above ++ [.caller next], by simp⟩

/-- What a turn does with what has come back to it, and how the main thread and the tasks stand then. -/
theorem World.turned_of_step {stage : Stage K} (ho : w.Orderly)
    (ht : w.thread? n = some ⟨n, control, [.turn t stage]⟩) (hs : w.step client n = some w')
    (hreturn : control.IsReturn) (htask : w.tasks[t]? = some task) :
    ∃ m, Turned client w t task stage control m ∧ w'.thread? n = some ⟨n, m.control, m.stack⟩ ∧
      w'.tasks = m.world.tasks := by
  obtain ⟨m, hm, hafter⟩ := thread?_of_step ho ht hs
  exact ⟨m, turn_turned hm hreturn htask, hafter, step_tasks hm ht hs⟩

/-- The code has been begun at that stage of the task's turn and has run for so long, without anything coming
back to the turn; it still runs, or what it has come to is about to come back. -/
structure Stint (client : Client M E K H) (t : Nat) (stage : Stage K) (code : Code M E K H (Reply M K))
    (trail : List (Moment M E K H)) (w : World M E K H) : Prop where
  since : ∃ v, v.thread? World.mainThread = some ⟨World.mainThread, .eval code, [.turn t stage]⟩ ∧
    Run client v trail w
  above : ∀ m ∈ trail, ¬AtTurn t m.thread.control m.thread.stack
  stays : ∀ m ∈ trail, ∀ stage', .turn t stage' ∈ m.thread.stack → stage' = stage
  working : ∃ control stack, w.thread? World.mainThread = some ⟨World.mainThread, control, stack⟩ ∧
    Working t stage control stack

namespace Stint
variable {stage : Stage K} {code : Code M E K H (Reply M K)}

theorem begins (hw : w.thread? World.mainThread = some ⟨World.mainThread, .eval code, [.turn t stage]⟩)
    (hgives : code.Gives stage.Expects) : Stint client t stage code [] w :=
  ⟨⟨w, hw, .refl⟩, by simp, by simp, ⟨_, _, hw, .runs hgives⟩⟩

theorem not_isIdle (h : Stint client t stage code trail w) : w.isIdle = false := by
  obtain ⟨control, stack, hmain, hworking⟩ := h.working
  obtain ⟨above, rfl⟩ := hworking.stack_eq
  rw [World.isIdle_eq hmain]
  cases above <;> rfl

/-- A step at which nothing comes back to the turn. -/
theorem of_step (h : Stint client t stage code trail w) (hw : w.Staged) (ht : w.thread? n = some thread)
    (hs : w.step client n = some w') (ha : ¬AtTurn t thread.control thread.stack) :
    Stint client t stage code (trail ++ [⟨w, thread⟩]) w' := by
  obtain ⟨⟨v, hv, run⟩, habove, hstays, control, stack, hmain, hworking⟩ := h
  obtain ⟨above, hstack⟩ := hworking.stack_eq
  have hmem := World.mem_of_thread? ht
  refine ⟨⟨v, hv, run.step ht hs⟩, ?_, ?_, ?_⟩
  · exact List.forall_mem_append.mpr ⟨habove, List.forall_mem_singleton.mpr ha⟩
  · refine List.forall_mem_append.mpr ⟨hstays, List.forall_mem_singleton.mpr ?_⟩
    intro stage' hturn
    have hid := hw.rooted.main thread hmem t ⟨stage', hturn⟩
    obtain rfl : n = World.mainThread := (World.id_of_thread? ht).symm.trans hid
    cases ht.symm.trans hmain
    have hrooted := hw.rooted.last _ hmem
    dsimp only at hrooted hturn
    rw [hstack] at hrooted hturn
    exact (hrooted.eq_of_mem hturn).2
  · rcases hw.main_kept hmain (by simp [hstack]) ht hs with ⟨rfl, rfl⟩ | ⟨-, hkept⟩
    · obtain ⟨m, hm, hafter⟩ := World.thread?_of_step hw.orderly ht hs
      rcases hworking.step hm (hw.placed _ hmem).seated with hnext | ⟨hturn, hreturn⟩
      · exact ⟨m.control, m.stack, hafter, hnext⟩
      · exact absurd ⟨⟨stage, [], hturn⟩, hreturn⟩ ha
    · exact ⟨control, stack, hkept, hworking⟩

theorem of_between (h : Stint client t stage code trail w) (hw : w.Staged) (hb : Between client w w') :
    Stint client t stage code trail w' := by
  obtain ⟨⟨v, hv, run⟩, habove, hstays, control, stack, hmain, hworking⟩ := h
  obtain ⟨above, hstack⟩ := hworking.stack_eq
  obtain ⟨hinterlude, ho'⟩ := World.between_interlude hw.orderly hb
  have hkept := World.keeps_of_interlude hinterlude ho' hmain (by simp [hstack])
  exact ⟨⟨v, hv, run.between hb⟩, habove, hstays, control, stack, hkept, hworking⟩

/-- What comes back to the turn ends the stint: an answer that the code gives at that stage, or a panic. -/
theorem at_turn (h : Stint client t stage code trail w) (hw : w.Staged) (ht : w.thread? n = some thread)
    (ha : AtTurn t thread.control thread.stack) :
    n = World.mainThread ∧ ∃ control, thread = ⟨World.mainThread, control, [.turn t stage]⟩ ∧
      ∀ reply, control = .resume reply → stage.Expects reply := by
  obtain ⟨-, -, -, control, stack, hmain, hworking⟩ := h
  have hmem := World.mem_of_thread? ht
  have hid := hw.rooted.main thread hmem t ha.inTurn
  obtain rfl : n = World.mainThread := (World.id_of_thread? ht).symm.trans hid
  cases ht.symm.trans hmain
  obtain ⟨⟨stage', rest, rfl⟩, hreturn⟩ := ha
  obtain rfl : rest = [] := (hw.rooted.last _ hmem).1 rfl
  obtain ⟨rfl, hcontrol⟩ := hworking.at_turn hreturn
  refine ⟨rfl, control, rfl, ?_⟩
  rintro reply rfl
  rcases hcontrol with ⟨_, ⟨⟩, hexpects⟩ | ⟨payload, ⟨⟩⟩
  exact hexpects

end Stint

/-! ## The end of a turn -/

namespace Stage

/-- The producer has been answered for, or is about to be. -/
def isLate : Stage K → Bool
  | .announcing _ | .rendering | .closing _ => true
  | _ => false

def isClosing : Stage K → Bool
  | .closing _ => true
  | _ => false

/-- Of the late stages of a turn those follow that are still to come. -/
def Remains (ok : Stage K → Prop) : Prop :=
  ∀ stage, ok stage → stage.isLate ∧ ∀ stage', stage'.isLate → stage.isClosing = false → ok stage'

theorem remains_late : Remains fun stage : Stage K => stage.isLate :=
  fun _ h => ⟨h, fun _ h' _ => h'⟩

theorem remains_closing (outcome : Outcome) :
    Remains fun stage : Stage K => stage = .closing outcome := by
  rintro stage rfl
  exact ⟨rfl, nofun⟩

end Stage

/-- A turn that is late gets to its last stage, and from there to its end. -/
theorem World.Turned.late {stage : Stage K} (h : Turned client w t task stage control m)
    (hlate : stage.isLate) (ht : w.tasks[t]? = some task) :
    (∃ above stage', m.stack = above ++ [.turn t stage'] ∧ stage'.isLate ∧ stage.isClosing = false) ∨
      (⟨n, m.control, m.stack⟩ : Thread M E K H).isOver ∧
        ∃ task' outcome, m.world.tasks[t]? = some task' ∧ task'.state = .over outcome := by
  have concluded (outcome : Outcome) :
      ∃ task' other, (w.conclude [] t outcome : Move M E K H).world.tasks[t]? = some task' ∧
        task'.state = .over other := ⟨_, outcome, task_of_modify rfl ht, rfl⟩
  cases h with
  | asks => cases hlate
  | parks => cases hlate
  | announces => cases hlate
  | renders => exact .inl ⟨[], _, rfl, rfl, rfl⟩
  | closes hfinds =>
    refine .inl ⟨[_], _, rfl, rfl, ?_⟩
    cases stage with
    | closing => cases hfinds
    | _ => rfl
  | concludes => exact .inr ⟨rfl, concluded _⟩
  | strays => exact .inr ⟨rfl, concluded _⟩
  | escapes => exact .inr ⟨rfl, concluded _⟩

/-- The turn of the task is at one of these stages, or at its end. -/
inductive Finishing (t : Nat) (ok : Stage K → Prop) (w : World M E K H) : Prop
  | amid {main : Thread M E K H} (above : List (Frame M E K H)) {stage : Stage K} :
      w.thread? World.mainThread = some main → main.stack = above ++ [.turn t stage] → ok stage →
      Finishing t ok w
  | ended {task : Task K} {outcome : Outcome} : w.isIdle → w.tasks[t]? = some task →
      task.state = .over outcome → Finishing t ok w

namespace Finishing
variable {ok : Stage K → Prop}

/-- A step of the main thread above the turn. -/
theorem step_above {above : List (Frame M E K H)} {stage : Stage K}
    (hm : w.move client n (above ++ [.turn t stage]) control = some m)
    (hs : Seated (above ++ [.turn t stage])) (ha : ¬AtTurn t control (above ++ [.turn t stage])) :
    ∃ above', m.stack = above' ++ [.turn t stage] := by
  cases above with
  | nil =>
    refine (World.move_stride hm).keeps hs ?_
    intro hreturn
    exact ha ⟨⟨stage, [], rfl⟩, hreturn⟩
  | cons frame above =>
    rw [List.cons_append] at hm hs
    obtain ⟨frames, hstack, -⟩ := (World.move_stride hm).base hs
    exact ⟨frames, hstack⟩

/-- Something comes back to the turn. -/
theorem at_turn {stage : Stage K} (hok : Stage.Remains ok) (hstage : ok stage) (hw : w.Staged)
    (htask : w.tasks[t]? = some task)
    (ht : w.thread? World.mainThread = some ⟨World.mainThread, control, [.turn t stage]⟩)
    (hs : w.step client World.mainThread = some w') (hreturn : control.IsReturn) : Finishing t ok w' := by
  obtain ⟨hlate, hnext⟩ := hok stage hstage
  obtain ⟨m, hturned, hafter, htasks⟩ := World.turned_of_step hw.orderly ht hs hreturn htask
  rcases hturned.late (n := World.mainThread) hlate htask with
    ⟨above, stage', hstack, hlate', hclosing⟩ | ⟨hover, task', outcome, htask', hstate⟩
  · exact .amid above hafter hstack (hnext stage' hlate' hclosing)
  · exact .ended ((World.isIdle_eq hafter).trans hover) (htasks ▸ htask') hstate

theorem of_step (h : Finishing t ok w) (hok : Stage.Remains ok) (hw : w.Staged)
    (hidle : w.isIdle = false) (htask : w.tasks[t]? = some task) (ht : w.thread? n = some thread)
    (hs : w.step client n = some w') :
    (∀ stage, .turn t stage ∈ thread.stack → ok stage) ∧ Finishing t ok w' := by
  cases h with
  | ended hidle' =>
    rw [hidle] at hidle'
    cases hidle'
  | @amid main above stage hmain hstack hstage =>
    have hrooted := hw.rooted.last main (World.mem_of_thread? hmain)
    rcases hw.main_kept hmain (by simp [hstack]) ht hs with ⟨rfl, rfl⟩ | ⟨hn, hkept⟩
    · have hid := World.id_of_thread? ht
      obtain ⟨id, control, stack⟩ := thread
      dsimp only at hid hstack hrooted
      subst hid hstack
      refine ⟨?_, ?_⟩
      · intro stage' hmem
        exact (hrooted.eq_of_mem hmem).2 ▸ hstage
      · by_cases ha : AtTurn t control (above ++ [.turn t stage])
        · obtain ⟨⟨stage', rest, hturn⟩, hreturn⟩ := ha
          rw [hturn] at hrooted ht
          obtain rfl : rest = [] := hrooted.1 rfl
          obtain rfl : above = [] := by simpa using congrArg List.length hturn
          cases hturn
          exact at_turn hok hstage hw htask ht hs hreturn
        · obtain ⟨m, hm, hafter⟩ := World.thread?_of_step hw.orderly ht hs
          obtain ⟨above', hstack'⟩ := step_above hm (hw.placed _ (World.mem_of_thread? ht)).seated ha
          exact .amid above' hafter hstack' hstage
    · refine ⟨?_, .amid above hkept hstack hstage⟩
      intro stage' hmem
      have hid := hw.rooted.main thread (World.mem_of_thread? ht) t ⟨stage', hmem⟩
      exact absurd ((World.id_of_thread? ht).symm.trans hid) hn

theorem of_between (h : Finishing t ok w) (hw : w.Staged) (hidle : w.isIdle = false)
    (hb : Between client w w') : Finishing t ok w' := by
  cases h with
  | ended hidle' =>
    rw [hidle] at hidle'
    cases hidle'
  | amid above hmain hstack hstage =>
    obtain ⟨hinterlude, ho'⟩ := World.between_interlude hw.orderly hb
    exact .amid above (World.keeps_of_interlude hinterlude ho' hmain (by simp [hstack])) hstack hstage

theorem ended_of_isIdle (h : Finishing t ok w) (hidle : w.isIdle) :
    ∃ task outcome, w.tasks[t]? = some task ∧ task.state = .over outcome := by
  cases h with
  | amid above hmain hstack =>
    rw [World.isIdle_eq hmain] at hidle
    have hnil := (Thread.isBare_of_isOver hidle).stack_eq
    simp [hstack] at hnil
  | ended _ htask hover => exact ⟨_, _, htask, hover⟩

end Finishing

/-! ## The first turn -/

/-- The task has not had a turn. -/
def TaskState.isNew : TaskState K → Bool
  | .unborn _ | .fresh _ => true
  | _ => false

theorem World.Asked.not_new {producer : K} (h : Asked client w [] t task producer m)
    (ht : w.tasks[t]? = some task') (hnew : task'.state.isNew = false) :
    ∃ task', m.world.tasks[t]? = some task' ∧ task'.state.isNew = false := by
  cases h with
  | cancelled => exact ⟨task', ht, hnew⟩
  | polls => exact ⟨_, task_of_modify rfl ht, hnew⟩

theorem World.Turned.not_new {stage : Stage K} (h : Turned client w t task stage control m)
    (ht : w.tasks[t]? = some task) (hnew : task.state.isNew = false) :
    ∃ task', m.world.tasks[t]? = some task' ∧ task'.state.isNew = false := by
  cases h with
  | asks hasked => exact hasked.not_new ht hnew
  | parks _ htasks => exact ⟨_, task_of_modify htasks ht, rfl⟩
  | announces => exact ⟨task, ht, hnew⟩
  | renders => exact ⟨task, ht, hnew⟩
  | closes => exact ⟨task, ht, hnew⟩
  | concludes => exact ⟨_, task_of_modify rfl ht, rfl⟩
  | strays => exact ⟨_, task_of_modify rfl ht, rfl⟩
  | escapes => exact ⟨_, task_of_modify rfl ht, rfl⟩

theorem Task.Changes.is_new (h : task.Changes t control stack task') (ha : ¬AtTurn t control stack)
    (hnew : task.state.isNew) : task'.state.isNew := by
  cases h with
  | rests => exact hnew
  | cancels => exact hnew
  | spawns =>
    unfold Task.spawn
    split
    · rfl
    · exact hnew
  | turns hreturn hstack => exact absurd ⟨⟨_, _, hstack⟩, hreturn⟩ ha

theorem Task.Changes.not_new (h : task.Changes t control stack task') (ha : ¬AtTurn t control stack)
    (hnew : task.state.isNew = false) : task'.state.isNew = false := by
  cases h with
  | rests => exact hnew
  | cancels => exact hnew
  | spawns =>
    unfold Task.spawn
    split
    · rename_i hstate
      rw [hstate] at hnew
      cases hnew
    · exact hnew
  | turns hreturn hstack => exact absurd ⟨⟨_, _, hstack⟩, hreturn⟩ ha

/-- The task has not had a turn so far, or its producer has been started in the first. -/
inductive Debut (t : Nat) (trail : List (Moment M E K H)) (w : World M E K H) : Prop
  | ahead : (∀ task, w.tasks[t]? = some task → task.state.isNew) →
      (∀ m ∈ trail, ¬InTurn t m.thread.stack) → w.Unattended t → Debut t trail w
  | past {task : Task K} : w.tasks[t]? = some task → task.state.isNew = false →
      ((∃ m ∈ trail, .turn t .starting ∈ m.thread.stack) ∨
        ∃ thread ∈ w.threads, .turn t .starting ∈ thread.stack) → Debut t trail w

namespace Debut

theorem of_step (h : Debut t trail w) (hw : w.Staged) (ht : w.thread? n = some thread)
    (hs : w.step client n = some w') : Debut t (trail ++ [⟨w, thread⟩]) w' := by
  have hmem := World.mem_of_thread? ht
  obtain ⟨⟨m, hm, stepped⟩, -⟩ := World.step_stepped hw.orderly ht hs
  have hn := stepped.id
  subst hn
  have htasks := World.step_tasks hm ht hs
  have hchange : TaskChange w thread.control thread.stack w'.tasks := htasks ▸ World.move_tasks hm
  cases h with
  | ahead hnew hbefore hnone =>
    have ha : ¬AtTurn t thread.control thread.stack := fun ha => hnone thread hmem ha.inTurn
    refine .ahead ?_ ?_ (hnone.of_step hw.orderly hw.rooted ht hs).1
    · intro task' htask'
      cases htask : w.tasks[t]? with
      | some task =>
        obtain ⟨after, hafter, hchanges⟩ := hchange.get htask
        cases htask'.symm.trans hafter
        exact hchanges.is_new ha (hnew task htask)
      | none =>
        obtain ⟨-, p, point, name, producer, config, sink, -, -, rfl⟩ := hchange.new htask htask'
        rfl
    · exact List.forall_mem_append.mpr ⟨hbefore, List.forall_mem_singleton.mpr (hnone thread hmem)⟩
  | @past task htask hnew hstarted =>
    have hnew' : ∃ task', w'.tasks[t]? = some task' ∧ task'.state.isNew = false := by
      by_cases ha : AtTurn t thread.control thread.stack
      · obtain ⟨⟨stage, rest, hstack⟩, hreturn⟩ := ha
        have hrooted := hw.rooted.last thread hmem
        rw [hstack] at hm hrooted
        obtain rfl : rest = [] := hrooted.1 rfl
        rw [htasks]
        exact (World.turn_turned hm hreturn htask).not_new htask hnew
      · obtain ⟨task', htask', hchanges⟩ := hchange.get htask
        exact ⟨task', htask', hchanges.not_new ha hnew⟩
    obtain ⟨task', htask', hnew'⟩ := hnew'
    refine .past htask' hnew' ?_
    rcases hstarted with ⟨m, hmoment, hstarting⟩ | ⟨other, hother, hstarting⟩
    · exact .inl ⟨m, List.mem_append_left _ hmoment, hstarting⟩
    · rcases stepped.succession.others_before hother with rfl | hafter | hbare
      · exact .inl ⟨⟨w, other⟩, List.mem_append_right _ List.mem_cons_self, hstarting⟩
      · exact .inr ⟨other, hafter, hstarting⟩
      · rw [hbare.stack_eq] at hstarting
        cases hstarting

theorem of_between (h : Debut t trail w) (hw : w.Staged) (hb : Between client w w') :
    Debut t trail w' := by
  rcases World.between_turn (t := t) hb with ⟨htask, hthreads⟩ | ⟨ready, m, hbegun, hm, hidle, rfl⟩
  · cases h with
    | ahead hnew hbefore hnone =>
      refine .ahead (fun task ht => hnew task (htask ▸ ht)) hbefore ?_
      intro other hother hturn
      exact hnone other (hthreads other hother hturn) hturn
    | past ht hnew hstarted =>
      refine .past (htask.trans ht) hnew (hstarted.imp_right ?_)
      rintro ⟨other, hother, hstarting⟩
      obtain ⟨hinterlude, ho'⟩ := World.between_interlude hw.orderly hb
      have hstack : other.stack ≠ [] := List.ne_nil_of_mem hstarting
      have hkept := World.keeps_of_interlude hinterlude ho' (hw.orderly.thread?_eq hother) hstack
      exact ⟨other, World.mem_of_thread? hkept, hstarting⟩
  · cases hbegun with
    | passes => exact absurd rfl hm
    | @starts task producer htask hfresh =>
      have hmain := hw.thread?_assign rfl (.eval ((client.start producer t).bind fun code => .ret (.future code)))
        [.turn t .starting]
      exact .past (World.task_of_modify rfl htask) rfl
        (.inr ⟨_, World.mem_of_thread? hmain, List.mem_cons_self⟩)
    | @asks task producer wake m htask hparked hasked =>
      obtain ⟨task', htask', hnew'⟩ := hasked.not_new (World.task_of_modify rfl htask) rfl
      refine .past htask' hnew' (.inl ?_)
      cases h with
      | ahead hnew =>
        have hnew := hnew task htask
        rw [hparked] at hnew
        cases hnew
      | past _ _ hstarted =>
        refine hstarted.resolve_right ?_
        rintro ⟨other, hother, hstarting⟩
        exact hw.unattended hidle other hother ⟨_, hstarting⟩

theorem initial (host : H) : Debut t [] (.initial host : World M E K H) := by
  refine .ahead nofun (by simp) ?_
  intro other hother
  rw [List.mem_singleton.mp hother]
  exact World.not_inTurn_nil

end Debut

theorem Run.debut (run : Run client (.initial host) trail w) : Debut t trail w := by
  induction run with
  | refl => exact .initial host
  | step before ht hs ih => exact ih.of_step before.staged ht hs
  | between before hb ih => exact ih.of_between before.staged hb

end Exchange
