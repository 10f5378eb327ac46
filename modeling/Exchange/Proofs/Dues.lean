import Exchange.Proofs.Promise
import Exchange.Proofs.Shelter

/-!
What the calls of a thread have still to do. A step takes from that; it adds to it only where a call
that is made leaves something to be done, or the turn of a task that has come to its end.
-/

namespace Exchange
set_option autoImplicit false

variable {M E K H : Type} {client : Client M E K H} {w w' : World M E K H} {t n p : Nat}
  {thread : Thread M E K H}
variable {control : Control M E K H} {stack : List (Frame M E K H)} {m : Move M E K H}
variable {act : Act M E K}

/-- What the call of the frame does for its point once it goes on. -/
def Frame.dues : Frame M E K H → List (Nat × Act M E K)
  | .acts p todo _ => todo.map (p, ·)
  | _ => []

/-- What is being done for the call of the uppermost frame. -/
def Control.dues (top : Option (Frame M E K H)) : Control M E K H → List (Nat × Act M E K)
  | .act due => (top.bind Frame.holder?).toList.map (·, due)
  | .perform op => (top.bind Frame.holder?).toList.map (·, .call op)
  | _ => []

/-- What the calls of a thread have still to do, each for its point. -/
def duesOf (control : Control M E K H) (stack : List (Frame M E K H)) : List (Nat × Act M E K) :=
  control.dues stack.head? ++ stack.flatMap Frame.dues

/-- Neither a notice, nor a cancellation, nor a further call. -/
def Act.IsMere : Act M E K → Prop
  | .notify _ _ | .cancel _ | .call _ => False
  | _ => True

/-- What a step newly leaves to be done. -/
inductive Incurs (client : Client M E K H) (w : World M E K H) :
    Control M E K H → List (Frame M E K H) → Move M E K H → Nat → Act M E K → Prop
  | mere {control : Control M E K H} {stack : List (Frame M E K H)} {m : Move M E K H} {p : Nat}
      {act : Act M E K} : act.IsMere → Incurs client w control stack m p act
  | notifies {p : Nat} {point : Point M E K} {notice : Notice K} {stack : List (Frame M E K H)}
      {m : Move M E K H} : w.points[p]? = some point → ¬point.phase.hasInterest →
      Incurs client w (.perform (.atEnd p notice)) stack m p (.notify point.nextTicket notice)
  | binds {p point name producer config sink} {stack : List (Frame M E K H)} :
      w.points[p]? = some point →
      Incurs client w (.perform (.bind p name producer config sink)) stack
        (w.bind stack p point name producer config sink) p
        (.call (.atEnd p (.cancel w.tasks.length)))
  | closes {u : Nat} {stage : Stage K} {task : Task K} {ending : Ending M K}
      {control : Control M E K H} {act : Act M E K} : control.IsReturn → w.tasks[u]? = some task →
      act ∈ ending.acts client u task →
      Incurs client w control [.turn u stage] (w.close client [] u task ending) task.point act

theorem mem_duesOf : (p, act) ∈ duesOf control stack ↔
    (p, act) ∈ control.dues stack.head? ∨ ∃ frame ∈ stack, (p, act) ∈ frame.dues := by
  simp [duesOf]

theorem Frame.IsFanOut.dues {frame : Frame M E K H} (h : frame.IsFanOut) : frame.dues = [] := by
  cases frame <;> first | rfl | exact h.elim

theorem Thread.IsBare.dues (h : thread.IsBare) : duesOf thread.control thread.stack = [] := by
  obtain ⟨id, control, stack⟩ := thread
  cases control <;> cases stack <;> first | exact h.elim | rfl

namespace World

section Calls
variable {point : Point M E K} {q : Nat} {todo : List (Act M E K)} {answer : Reply M K}
variable (hstack : m.stack = .acts q todo answer :: stack)
include hstack

theorem register_incurs {interest : Interest} {code : K}
    (h : w.register n stack p point interest code = some m) : ∀ act ∈ todo, act.IsMere := by
  unfold register at h
  repeat' split at h
  all_goals cases h
  all_goals cases hstack
  all_goals simp [Point.report, Act.IsMere]

theorem unregister_stack {id : Nat} (h : w.unregister n stack p point id = some m) : False := by
  unfold unregister at h
  dsimp only at h
  repeat' split at h
  all_goals cases h
  all_goals cases hstack

theorem atEnd_incurs {notice : Notice K} (h : w.atEnd n stack p point notice = some m) :
    q = p ∧ ¬point.phase.hasInterest ∧
      ∀ act ∈ todo, act.IsMere ∨ act = .notify point.nextTicket notice := by
  unfold atEnd at h
  dsimp only at h
  split at h
  · cases h
  · cases h
    cases hstack
  · split at h
    · rename_i hended
      cases h
      cases hstack
      refine ⟨rfl, ?_, by simp [Point.report, Act.IsMere]⟩
      intro hinterest
      cases hphase : point.phase <;> simp_all [Phase.isEnded, Phase.hasInterest]
    · split at h
      · cases h
        cases hstack
      · rename_i hinterest
        cases h
        cases hstack
        exact ⟨rfl, hinterest, by simp⟩

theorem push_incurs {event : Event M E} (h : w.push n stack p point event = some m) :
    ∀ act ∈ todo, act.IsMere := by
  unfold push at h
  repeat' split at h
  all_goals cases h
  all_goals cases hstack
  all_goals simp [Point.report, Act.IsMere]

theorem poke_incurs (h : w.poke stack p point = m) : ∀ act ∈ todo, act.IsMere := by
  unfold poke at h
  repeat' split at h
  all_goals cases h
  all_goals cases hstack
  all_goals simp [Point.report, Act.IsMere]

/-- What a call leaves to be done when it is made. -/
theorem perform_incurs {op : Op M E K} (hm : w.perform client n stack op = some m) :
    ∀ act ∈ todo, Incurs client w (.perform op) stack m q act := by
  have mere (h : ∀ act ∈ todo, act.IsMere) :
      ∀ act ∈ todo, Incurs client w (.perform op) stack m q act := by
    intro act hact
    exact .mere (h act hact)
  cases op <;> simp only [perform] at hm
  case register =>
    split at hm
    · exact mere (register_incurs hstack hm)
    · cases hm
      cases hstack
  case unregister =>
    split at hm
    · split at hm
      · exact (unregister_stack hstack hm).elim
      · cases hm
        cases hstack
    · cases hm
      cases hstack
  case atEnd =>
    split at hm
    · rename_i hp
      obtain ⟨rfl, hinterest, htodo⟩ := atEnd_incurs hstack hm
      intro act hact
      rcases htodo act hact with hmere | rfl
      · exact .mere hmere
      · exact .notifies hp hinterest
    · cases hm
      cases hstack
  case push =>
    split at hm
    · exact mere (push_incurs hstack hm)
    · cases hm
      cases hstack
  case poke =>
    split at hm
    · exact mere (poke_incurs hstack (Option.some.inj hm))
    · cases hm
      cases hstack
  case bind =>
    split at hm
    · rename_i hp
      cases hm
      cases hstack
      simp only [List.forall_mem_cons]
      exact ⟨.binds hp, .mere trivial, .mere trivial, by simp⟩
    · cases hm
      cases hstack
  case emit =>
    split at hm
    · cases hm
      cases hstack
      exact mere (by simp [Act.IsMere])
    · cases hm
      cases hstack
  case inspect =>
    split at hm
    · cases hm
      cases hstack
    · cases hm
      cases hstack
  all_goals
    cases hm
    cases hstack

end Calls

/-- What the end of a turn leaves to be done. -/
theorem Turned.incurs {u : Nat} {task : Task K} {stage : Stage K} {q : Nat} {todo : List (Act M E K)}
    {answer : Reply M K} {rest : List (Frame M E K H)}
    (h : Turned client w u task stage control m) (hc : control.IsReturn) (ht : w.tasks[u]? = some task)
    (hstack : m.stack = .acts q todo answer :: rest) :
    ∀ act ∈ todo, Incurs client w control [.turn u stage] m q act := by
  cases h with
  | asks hasked =>
    cases hasked with
    | cancelled =>
      cases hstack
      exact fun act hact => .closes hc ht hact
    | polls => cases hstack
  | parks => cases hstack
  | announces =>
    cases hstack
    simp only [List.forall_mem_cons]
    exact ⟨.mere trivial, by simp⟩
  | renders => cases hstack
  | closes =>
    cases hstack
    exact fun act hact => .closes hc ht hact
  | concludes => cases hstack
  | strays => cases hstack
  | escapes => cases hstack

/-- Whatever is to be done after a step was to be done before, or is newly left by the step. -/
theorem move_dues (hm : w.move client n stack control = some m) (hr : Exchange.Rooted stack)
    (h : (p, act) ∈ duesOf m.control m.stack) :
    (p, act) ∈ duesOf control stack ∨ Incurs client w control stack m p act := by
  -- frames without dues come, and any may go
  have fewer {base : List (Frame M E K H)} (frames : List (Frame M E K H))
      (hstack : m.stack = frames ++ base) (hf : ∀ frame ∈ frames, frame.dues = [])
      (hc : m.control.dues m.stack.head? = []) (hs : ∀ frame ∈ base, frame ∈ stack) :
      (p, act) ∈ duesOf control stack := by
    rw [mem_duesOf, hc] at h
    obtain ⟨frame, hframe, hdue⟩ := h.resolve_left List.not_mem_nil
    rw [hstack] at hframe
    rcases List.mem_append.mp hframe with hcome | hold
    · rw [hf frame hcome] at hdue
      cases hdue
    · exact mem_duesOf.mpr (.inr ⟨frame, hs frame hold, hdue⟩)
  have reported {top : Option (Frame M E K H)} {sink : Sink K} {kind : Kind}
      {label reason : Option String}
      (h : (p, act) ∈ (.act (.report sink kind label reason) : Control M E K H).dues top) :
      Incurs client w control stack m p act := by
    obtain ⟨q, -, heq⟩ := List.mem_map.mp h
    cases heq
    exact .mere trivial
  have none : ∀ frame ∈ ([] : List (Frame M E K H)), frame.dues = [] := by simp
  have same : ∀ frame ∈ stack, frame ∈ stack := fun _ h => h
  cases move_stride hm with
  | returns => exact .inl (fewer [] rfl none rfl same)
  | panics => exact .inl (fewer [] rfl none rfl same)
  | changes => exact .inl (fewer [] rfl none rfl same)
  | calls => exact .inl (fewer [_] rfl (by simp [Frame.dues]) rfl same)
  | answers => exact .inl (fewer [] rfl none rfl same)
  | owes =>
    rcases mem_duesOf.mp h with hcontrol | ⟨frame, hframe, hdue⟩
    · cases hcontrol
    rcases List.mem_cons.mp hframe with rfl | hold
    · obtain ⟨due, hmem, heq⟩ := List.mem_map.mp hdue
      cases heq
      exact .inr (perform_incurs rfl hm _ hmem)
    · exact .inl (mem_duesOf.mpr (.inr ⟨frame, hold, hdue⟩))
  | serves => exact .inl (fewer [_] rfl (by simp [Frame.dues]) rfl same)
  | emits =>
    rcases mem_duesOf.mp h with hcontrol | hframes
    · exact .inr (reported hcontrol)
    · exact .inl (mem_duesOf.mpr (.inr hframes))
  | attempts => exact .inl (fewer [_] rfl (by simp [Frame.dues]) rfl same)
  | forks => exact .inl (fewer [] rfl none rfl same)
  | forksAndWaits => exact .inl (fewer [] rfl none rfl same)
  | joins => exact .inl (fewer [] rfl none rfl same)
  | joinsPanic => exact .inl (fewer [] rfl none rfl same)
  | @acts due _ _ next _ hleads =>
    left
    rcases mem_duesOf.mp h with hcontrol | hframes
    · refine mem_duesOf.mpr (.inl ?_)
      cases due with
      | call op =>
        cases hm
        exact hcontrol
      | _ =>
        rcases hleads.control_cases with ⟨_, _, _, _, -, rfl⟩ | rfl | ⟨-, ⟨_, rfl⟩ | ⟨_, h, -⟩⟩
        · cases hcontrol
        · cases hcontrol
        · cases hcontrol
        · cases h
    · exact mem_duesOf.mpr (.inr hframes)
  | tells => exact .inl (fewer [_] rfl (by simp [Frame.dues]) rfl same)
  | records => exact .inl (fewer [] rfl none rfl same)
  | fansOut hf => exact .inl (fewer [_] rfl (by simp [hf.dues]) rfl same)
  | goesOn => exact .inl (fewer [] rfl none rfl fun _ => List.mem_cons_of_mem _)
  | handsOn _ _ _ hf => exact .inl (fewer [_] rfl (by simp [hf.dues]) rfl fun _ => List.mem_cons_of_mem _)
  | fansOn frames _ _ _ hf =>
    exact .inl (fewer frames rfl (fun frame h => (hf frame h).dues) rfl fun _ => List.mem_cons_of_mem _)
  | runsOn => exact .inl (fewer [_] rfl (by simp [Frame.dues]) rfl fun _ => List.mem_cons_of_mem _)
  | @closes _ rest u stage _ q todo stage' hreturn =>
    obtain rfl := hr.1 rfl
    rcases mem_duesOf.mp h with hcontrol | ⟨frame, hframe, hdue⟩
    · cases hcontrol
    simp only [List.mem_cons, List.not_mem_nil, or_false] at hframe
    rcases hframe with rfl | rfl
    · obtain ⟨due, hmem, heq⟩ := List.mem_map.mp hdue
      cases heq
      cases ht : w.tasks[u]? with
      | some task => exact .inr ((turn_turned hm hreturn ht).incurs hreturn ht rfl _ hmem)
      | none =>
        cases control with
        | resume => simp [move, resume, ht, Move.answer] at hm
        | unwind => simp [move, unwind, ht, Move.answer] at hm
        | _ => exact hreturn.elim
    · cases hdue
  | pops => exact .inl (fewer [] rfl none rfl fun _ => List.mem_cons_of_mem _)
  | unwinds => exact .inl (fewer [] rfl none rfl fun _ => List.mem_cons_of_mem _)
  | settles => exact .inl (fewer [] rfl none rfl fun _ => List.mem_cons_of_mem _)
  | @proceeds _ rest q first todo answer =>
    left
    rcases mem_duesOf.mp h with hcontrol | ⟨frame, hframe, hdue⟩
    · refine mem_duesOf.mpr (.inr ⟨_, List.mem_cons_self, ?_⟩)
      cases List.mem_singleton.mp hcontrol
      exact List.mem_cons_self
    · rcases List.mem_cons.mp hframe with rfl | hold
      · exact mem_duesOf.mpr (.inr ⟨_, List.mem_cons_self, List.mem_cons_of_mem _ hdue⟩)
      · exact mem_duesOf.mpr (.inr ⟨frame, List.mem_cons_of_mem _ hold, hdue⟩)
  | gives => exact .inl (fewer [_] rfl (by simp [Frame.dues]) rfl same)
  | advances => exact .inl (fewer [] rfl none rfl same)
  | drops => exact .inl (fewer [] rfl none rfl same)
  | retires => exact .inl (fewer [] rfl none rfl fun _ => List.mem_cons_of_mem _)
  | leaves => exact .inl (fewer [] rfl none rfl fun _ => List.mem_cons_of_mem _)
  | catches =>
    rcases mem_duesOf.mp h with hcontrol | ⟨frame, hframe, hdue⟩
    · exact .inr (reported hcontrol)
    · exact .inl (mem_duesOf.mpr (.inr ⟨frame, List.mem_cons_of_mem _ hframe, hdue⟩))

/-- A thread that begins something has nothing to do for calls but reports. -/
theorem Scheduled.dues (h : Scheduled client w thread)
    (hdue : (p, act) ∈ duesOf thread.control thread.stack) : act.IsMere := by
  cases h with
  | code => cases hdue
  | turn _ hbegun =>
    cases hbegun with
    | passes => cases hdue
    | starts => cases hdue
    | asks _ _ hasked =>
      cases hasked with
      | cancelled =>
        obtain ⟨-, rfl⟩ : p = _ ∧ act = _ := by
          simpa [duesOf, Control.dues, Frame.dues, close, Move.acts, Ending.acts, Ending.outcome,
            Ending.report, Ending.response] using hdue
        trivial
      | polls => cases hdue

end World

/-! ## Above which frames notices are given and tasks are cancelled -/

def Control.Aimed (top : Option (Frame M E K H)) : Control M E K H → Prop
  | .act (.notify _ _) =>
    ∃ q, top = some (.delivering q) ∨ ∃ todo answer, top = some (.acts q todo answer)
  | .act (.cancel _) => ∃ q todo answer, top = some (.acts q todo answer)
  | _ => True

/-- Notices are given by deliveries or by calls; tasks are cancelled by calls. -/
theorem Stride.aimed (h : Stride client w t control stack m) : m.control.Aimed m.stack.head? := by
  cases h with
  | acts _ hleads =>
    rcases hleads.control_cases with ⟨_, _, _, _, -, rfl⟩ | rfl | ⟨-, ⟨_, rfl⟩ | ⟨_, -, rfl⟩⟩ <;> trivial
  | @proceeds _ _ q first todo answer =>
    cases first with
    | notify => exact ⟨q, .inr ⟨todo, answer, rfl⟩⟩
    | cancel => exact ⟨q, todo, answer, rfl⟩
    | _ => trivial
  | @gives _ _ q entry =>
    cases entry with
    | observer => trivial
    | ending => exact ⟨q, .inl rfl⟩
  | _ => trivial

theorem World.Scheduled.aimed (h : World.Scheduled client w thread) :
    thread.control.Aimed thread.stack.head? := by
  cases h with
  | code => trivial
  | turn _ hbegun =>
    cases hbegun with
    | passes => trivial
    | starts => trivial
    | asks _ _ hasked => cases hasked <;> trivial

theorem Thread.IsBare.aimed (h : thread.IsBare) : thread.control.Aimed thread.stack.head? := by
  obtain ⟨id, control, stack⟩ := thread
  cases control <;> trivial

theorem Run.aimed {host : H} {trail : List (Moment M E K H)}
    (run : Run client (.initial host) trail w) (hs : SinksReturn trail) :
    ∀ thread ∈ w.threads, thread.control.Aimed thread.stack.head? := by
  induction run with
  | refl =>
    intro thread hthread
    rw [List.mem_singleton.mp hthread]
    trivial
  | step before ht hstep ih =>
    obtain ⟨hs, -⟩ := sinksReturn_append.mp hs
    have hsound := before.sound (World.initial_sound host) hs
    obtain ⟨⟨m, -, stepped⟩, -⟩ := World.step_stepped hsound.orderly ht hstep
    intro other hother
    rcases stepped.succession.others_after hother with rfl | hbefore | hbare
    · exact stepped.stride.aimed
    · exact ih hs other hbefore
    · exact hbare.aimed
  | between _ hb ih =>
    intro other hother
    rcases World.between_threads hb hother with hbefore | hscheduled
    · exact ih hs other hbefore
    · exact hscheduled.aimed

end Exchange
