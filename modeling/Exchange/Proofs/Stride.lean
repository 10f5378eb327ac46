import Exchange.Proofs.History

/-!
What a step can do to the thread that takes it: which frames come and go, and what the thread is
about to do next. All that is said of stacks is derived from this list; the functions of the machine
are opened here, and once more where the phases of points change.
-/

namespace Exchange
set_option autoImplicit false

variable {M E K H : Type}

def Task.cancel (task : Task K) : Task K := { task with cancelled := true }

namespace Act

/-- A callback or a report, which must not get lost. -/
def IsDue : Act M E K → Prop
  | .report _ _ _ _ | .present _ _ | .notify _ _ => True
  | _ => False

def IsCallback : Act M E K → Prop
  | .present _ _ | .notify _ _ => True
  | _ => False

/-- The act panics only if a sink does. -/
def IsGentle : Act M E K → Prop
  | .report _ _ _ _ | .cancel _ => True
  | _ => False

/-- Neither a callback nor the report of an event that came too late. -/
def IsAside : Act M E K → Prop
  | .report _ kind _ _ => kind ≠ .lateEvent
  | .present _ _ | .notify _ _ => False
  | _ => True

/-- Where the act leads, from `w` to `w'`: a callback is the client's own code for it, and an observer's is
given the very event; a diagnostic is on its way to the sink, with the next number; a task is cancelled. -/
def LeadsTo (client : Client M E K H) (w w' : World M E K H) (control : Control M E K H) :
    Act M E K → Prop
  | .report sink kind label reason => control = .deliver sink ⟨kind, label, reason, w.nextSeq⟩
  | .present code event =>
    control = .eval ((client.observer code event).bind fun stays => .ret (.keep stays))
  | .notify _ (.run code) | .run code =>
    control = .eval ((client.routine code).bind fun _ => .ret .done)
  | .notify _ (.cancel t) | .cancel t =>
    control = .resume .done ∧ w'.tasks = w.tasks.modify t Task.cancel
  | .call op => control = .perform op
  | .announce producer point => control = .resume .done ∧ w'.host = client.bound producer point w.host
  | .spawn t => control = .resume .done ∧ w'.ready = w.ready ++ [t]

section
variable {client : Client M E K H} {w w' : World M E K H} {control : Control M E K H} {act : Act M E K}

theorem LeadsTo.control_cases (h : act.LeadsTo client w w' control) :
    (∃ sink kind label reason, act = .report sink kind label reason ∧
      control = .deliver sink ⟨kind, label, reason, w.nextSeq⟩) ∨
    control = .resume .done ∨
    ¬act.IsGentle ∧ ((∃ code, control = .eval code) ∨ ∃ op, act = .call op ∧ control = .perform op) := by
  cases act with
  | report => exact .inl ⟨_, _, _, _, rfl, h⟩
  | present => exact .inr (.inr ⟨id, .inl ⟨_, h⟩⟩)
  | notify ticket notice =>
    cases notice with
    | cancel => exact .inr (.inl h.1)
    | run => exact .inr (.inr ⟨id, .inl ⟨_, h⟩⟩)
  | run => exact .inr (.inr ⟨id, .inl ⟨_, h⟩⟩)
  | call op => exact .inr (.inr ⟨id, .inr ⟨op, rfl, h⟩⟩)
  | cancel => exact .inr (.inl h.1)
  | announce => exact .inr (.inl h.1)
  | spawn => exact .inr (.inl h.1)

theorem not_leadsTo_act {due : Act M E K} : ¬act.LeadsTo client w w' (.act due) := by
  intro h
  rcases h.control_cases with ⟨_, _, _, _, -, h⟩ | h | ⟨-, ⟨_, h⟩ | ⟨_, -, h⟩⟩ <;> cases h

theorem not_leadsTo_perform (h : act.IsDue) {op : Op M E K} :
    ¬act.LeadsTo client w w' (.perform op) := by
  intro hleads
  rcases hleads.control_cases with ⟨_, _, _, _, -, h'⟩ | h' | ⟨-, ⟨_, h'⟩ | ⟨_, rfl, -⟩⟩
  · cases h'
  · cases h'
  · cases h'
  · exact h

end

end Act

/-- Nothing that can panic stands before an act that must not get lost, and an observer that a call
itself gives an event has come too late. -/
def Neat (todo : List (Act M E K)) : Prop :=
  (todo.Pairwise fun a b => b.IsDue → a.IsGentle) ∧
    ∀ code event, .present code event ∈ todo → event = .tombstone

def Control.IsReturn : Control M E K H → Prop
  | .resume _ | .unwind _ => True
  | _ => False

theorem Control.isReturn_resume (reply : Reply M K) :
    (.resume reply : Control M E K H).IsReturn := trivial

theorem Control.isReturn_unwind (payload : Payload) :
    (.unwind payload : Control M E K H).IsReturn := trivial

/-- The frame owes nothing, and is no part of a call that serves a point. -/
def Frame.IsPlain : Frame M E K H → Prop
  | .acts _ _ _ | .serving _ | .delivering _ => False
  | _ => True

def Frame.IsFanOut : Frame M E K H → Prop
  | .fanOut _ _ _ _ => True
  | _ => False

section
variable {p : Nat} {stack : List (Frame M E K H)}

/-- The frame is part of the call that serves the point. -/
def Frame.attends (p : Nat) : Frame M E K H → Bool
  | .serving q | .delivering q => q = p
  | _ => false

theorem Frame.attends_iff {frame : Frame M E K H} :
    frame.attends p ↔ frame = .serving p ∨ frame = .delivering p := by
  cases frame <;> simp [attends]

/-- None of the frames is part of the call that serves the point. -/
def Clear (p : Nat) (frames : List (Frame M E K H)) : Prop :=
  ∀ frame ∈ frames, frame.attends p = false

@[simp] theorem clear_nil : Clear p ([] : List (Frame M E K H)) := by simp [Clear]

@[simp] theorem clear_cons {frame : Frame M E K H} :
    Clear p (frame :: stack) ↔ frame.attends p = false ∧ Clear p stack := by simp [Clear]

@[simp] theorem clear_append {frames : List (Frame M E K H)} :
    Clear p (frames ++ stack) ↔ Clear p frames ∧ Clear p stack := by
  simp [Clear, or_imp, forall_and]

theorem Frame.IsFanOut.attends {frame : Frame M E K H} (h : frame.IsFanOut) :
    frame.attends p = false := by
  cases frame <;> first | rfl | exact h.elim

end

/-- The threads have not changed. -/
structure SameThreads (w w' : World M E K H) : Prop where
  threads : w'.threads = w.threads
  nextThread : w'.nextThread = w.nextThread

structure Calm (w w' : World M E K H) : Prop extends SameThreads w w' where
  points : w'.points = w.points

theorem Calm.trans {u v w : World M E K H} (h : Calm u v) (h' : Calm v w) : Calm u w :=
  ⟨⟨h'.threads.trans h.threads, h'.nextThread.trans h.nextThread⟩, h'.points.trans h.points⟩

/-- Thread `t` has begun another thread. -/
structure Forked (w : World M E K H) (t : Nat) (w' : World M E K H) : Prop where
  points : w'.points = w.points
  nextThread : w'.nextThread = w.nextThread + 1
  threads : ∃ code, w'.threads = w.threads.flatMap fun other =>
    if other.id = t then [⟨w.nextThread, .eval code, []⟩, other] else [other]

/-- Another thread that was over is let go. -/
structure Joined (w : World M E K H) (child : Nat) (w' : World M E K H) : Prop where
  points : w'.points = w.points
  nextThread : w'.nextThread = w.nextThread
  threads : w'.threads = w.threads.filter (·.id ≠ child)
  finished : ∃ other, w.thread? child = some other ∧ other.isOver

namespace Phase

/-- The entry whose turn it is or comes next, and the event that it is given. -/
def due : Phase M E K → Option (Entry K × Event M E)
  | .listening _ => none
  | .dispatching _ pass => pass.waiting.head?.map (·, pass.event)
  | .ended farewell => farewell.waiting.head?.map (·, farewell.event)

end Phase

/-- The steps of thread `t`, from a control and a stack. -/
inductive Stride (client : Client M E K H) (w : World M E K H) (t : Nat) :
    Control M E K H → List (Frame M E K H) → Move M E K H → Prop
  -- code
  | returns {code stack} (reply : Reply M K) :
      Stride client w t (.eval code) stack ⟨w, .resume reply, stack⟩
  | panics {code stack} (payload : Payload) :
      Stride client w t (.eval code) stack ⟨w, .unwind payload, stack⟩
  | changes {code stack w'} (rest : Code M E K H (Reply M K)) : Calm w w' →
      Stride client w t (.eval code) stack ⟨w', .eval rest, stack⟩
  | calls {code stack} (op : Op M E K) (next : Reply M K → Code M E K H (Reply M K)) :
      Stride client w t (.eval code) stack ⟨w, .perform op, .caller next :: stack⟩
  -- calls
  | answers {op stack w'} (reply : Reply M K) : SameThreads w w' →
      Stride client w t (.perform op) stack ⟨w', .resume reply, stack⟩
  | owes {op stack w' p todo} (reply : Reply M K) : SameThreads w w' → Neat todo →
      Stride client w t (.perform op) stack ⟨w', .resume .done, .acts p todo reply :: stack⟩
  | serves {op stack w'} (p : Nat) : SameThreads w w' →
      Stride client w t (.perform op) stack ⟨w', .resume .done, .serving p :: stack⟩
  | emits {stack} (sink : Sink K) (kind : Kind) (label reason : Option String) :
      Stride client w t (.perform (.report sink kind label reason)) stack
        ⟨w, .act (.report sink kind label reason), stack⟩
  | attempts {op stack} (code : Code M E K H (Reply M K)) :
      Stride client w t (.perform op) stack ⟨w, .eval code, .catching :: stack⟩
  | forks {op stack w'} (reply : Reply M K) : Forked w t w' →
      Stride client w t (.perform op) stack ⟨w', .resume reply, stack⟩
  | forksAndWaits {op stack w'} (child : Nat) : Forked w t w' →
      Stride client w t (.perform op) stack ⟨w', .await child, stack⟩
  | joins {child stack w'} (reply : Reply M K) : Calm w w' ∨ Joined w child w' →
      Stride client w t (.await child) stack ⟨w', .resume reply, stack⟩
  | joinsPanic {child stack w'} (payload : Payload) : Joined w child w' →
      Stride client w t (.await child) stack ⟨w', .unwind payload, stack⟩
  -- acts and diagnostics
  | acts {act stack w' control} : Calm w w' → act.LeadsTo client w w' control →
      Stride client w t (.act act) stack ⟨w', control, stack⟩
  | tells {sink diagnostic stack} (code : Code M E K H (Reply M K)) :
      Stride client w t (.deliver sink diagnostic) stack ⟨w, .eval code, .receiving :: stack⟩
  | records {sink diagnostic stack w'} : Calm w w' →
      Stride client w t (.deliver sink diagnostic) stack ⟨w', .resume .done, stack⟩
  | fansOut {sink diagnostic stack frame} : frame.IsFanOut →
      Stride client w t (.deliver sink diagnostic) stack ⟨w, .resume .done, frame :: stack⟩
  -- plain frames
  | goesOn {reply stack} (next : Reply M K → Code M E K H (Reply M K)) :
      Stride client w t (.resume reply) (.caller next :: stack) ⟨w, .eval (next reply), stack⟩
  | handsOn {reply stack frame frame'} (sink : Sink K) (diagnostic : Diagnostic) :
      frame.IsFanOut → frame'.IsFanOut →
      Stride client w t (.resume reply) (frame :: stack) ⟨w, .deliver sink diagnostic, frame' :: stack⟩
  | fansOn {control stack frame w'} (frames : List (Frame M E K H)) : control.IsReturn → Calm w w' →
      frame.IsFanOut → (∀ frame ∈ frames, frame.IsFanOut) →
      Stride client w t control (frame :: stack) ⟨w', .resume .done, frames ++ stack⟩
  | runsOn {control stack t' stage w'} (stage' : Stage K) (code : Code M E K H (Reply M K)) :
      control.IsReturn → Calm w w' →
      Stride client w t control (.turn t' stage :: stack) ⟨w', .eval code, .turn t' stage' :: stack⟩
  | closes {control stack t' stage w' p todo} (stage' : Stage K) : control.IsReturn → Calm w w' →
      Neat todo → (∀ act ∈ todo, act.IsAside) →
      Stride client w t control (.turn t' stage :: stack)
        ⟨w', .resume .done, .acts p todo .done :: .turn t' stage' :: stack⟩
  | pops {control stack frame w'} (reply : Reply M K) :
      control.IsReturn → Calm w w' → frame.IsPlain →
      Stride client w t control (frame :: stack) ⟨w', .resume reply, stack⟩
  | unwinds {stack frame} (payload : Payload) : (∀ p, frame ≠ .delivering p) → ¬frame.IsFanOut →
      Stride client w t (.unwind payload) (frame :: stack) ⟨w, .unwind payload, stack⟩
  -- frames of calls on points
  | settles {reply stack p} (answer : Reply M K) :
      Stride client w t (.resume reply) (.acts p [] answer :: stack) ⟨w, .resume answer, stack⟩
  | proceeds {reply stack p first todo} (answer : Reply M K) :
      Stride client w t (.resume reply) (.acts p (first :: todo) answer :: stack)
        ⟨w, .act first, .acts p todo answer :: stack⟩
  | gives {reply stack p} (entry : Entry K) (event : Event M E) :
      (w.phase p).due = some (entry, event) → entry.heeds event →
      Stride client w t (.resume reply) (.serving p :: stack)
        ⟨w, .act (entry.act event), .delivering p :: .serving p :: stack⟩
  | advances {reply stack p w'} : SameThreads w w' →
      Stride client w t (.resume reply) (.serving p :: stack) ⟨w', .resume .done, .serving p :: stack⟩
  | drops {reply stack p w'} (sink : Sink K) (event : Event M E) : SameThreads w w' →
      Stride client w t (.resume reply) (.serving p :: stack)
        ⟨w', .act (.report sink .lateEvent (some (Point.label p)) (some event.lateName)),
          .serving p :: stack⟩
  | retires {reply stack p w'} : SameThreads w w' →
      Stride client w t (.resume reply) (.serving p :: stack) ⟨w', .resume .done, stack⟩
  | leaves {control stack p w'} : control.IsReturn → SameThreads w w' →
      Stride client w t control (.delivering p :: stack) ⟨w', .resume .done, stack⟩
  | catches {payload stack p w'} (sink : Sink K) : SameThreads w w' →
      Stride client w t (.unwind payload) (.delivering p :: stack)
        ⟨w', .act (.report sink .observerPanicked (some (Point.label p)) (some payload.info)),
          stack⟩

theorem Stride.of_act {client : Client M E K H} {w : World M E K H} {t : Nat} {due : Act M E K}
    {stack : List (Frame M E K H)} {m : Move M E K H} (h : Stride client w t (.act due) stack m) :
    Calm w m.world ∧ due.LeadsTo client w m.world m.control ∧ m.stack = stack := by
  cases h with
  | acts hcalm hleads => exact ⟨hcalm, hleads, rfl⟩
  | fansOn _ hreturn => exact hreturn.elim
  | runsOn _ _ hreturn => exact hreturn.elim
  | closes _ hreturn => exact hreturn.elim
  | pops _ hreturn => exact hreturn.elim
  | leaves hreturn => exact hreturn.elim

namespace World
variable {client : Client M E K H} {w : World M E K H} {t : Nat} {stack : List (Frame M E K H)}

/-! ## Changes that leave the threads alone, and most of them the points -/

theorem calm_refl : Calm w w := ⟨⟨rfl, rfl⟩, rfl⟩

theorem calm_modifyTask (change : Task K → Task K) :
    Calm w (w.modifyTask t change) := ⟨⟨rfl, rfl⟩, rfl⟩

theorem calm_wake {w' : World M E K H} (h : Calm w w') : Calm w (w'.wake t) := by
  unfold wake
  split
  · exact ⟨⟨h.threads, h.nextThread⟩, h.points⟩
  · exact h

theorem calm_cancel : Calm w (w.cancel t) := by
  unfold cancel
  split
  · split
    · exact calm_refl
    · exact calm_wake (calm_modifyTask _)
  · exact calm_refl

theorem tasks_wake : (w.wake t).tasks = w.tasks := by
  unfold wake
  split <;> rfl

theorem tasks_cancel : (w.cancel t).tasks = w.tasks.modify t Task.cancel := by
  have unchanged (h : ∀ task, w.tasks[t]? = some task → task.cancelled) :
      w.tasks = w.tasks.modify t Task.cancel := by
    apply List.ext_getElem?
    intro u
    by_cases hu : t = u
    · subst hu
      cases ht : w.tasks[t]? with
      | none => simp [ht]
      | some task => simp [ht, Task.cancel, ← h task ht]
    · simp [hu]
  unfold cancel
  split
  · rename_i task ht
    split
    · rename_i hcancelled
      apply unchanged
      intro other hother
      exact Option.some.inj (ht.symm.trans hother) ▸ hcancelled
    · exact tasks_wake
  · rename_i ht
    apply unchanged
    intro task htask
    cases ht.symm.trans htask

/-! ## The strides of each kind of control -/

theorem eval_stride (code : Code M E K H (Reply M K)) :
    Stride client w t (.eval code) stack (w.eval stack code) := by
  cases code with
  | ret reply => exact .returns reply
  | panic payload => exact .panics payload
  | host change next => exact .changes _ ⟨⟨rfl, rfl⟩, rfl⟩
  | call op next => exact .calls op next

theorem act_stride (act : Act M E K) : Stride client w t (.act act) stack (w.act client stack act) := by
  cases act with
  | notify ticket notice =>
    cases notice with
    | cancel t' => exact .acts calm_cancel ⟨rfl, tasks_cancel⟩
    | run code => exact .acts calm_refl rfl
  | cancel t' => exact .acts calm_cancel ⟨rfl, tasks_cancel⟩
  | spawn t' => exact .acts ⟨⟨rfl, rfl⟩, rfl⟩ ⟨rfl, rfl⟩
  | announce producer point => exact .acts ⟨⟨rfl, rfl⟩, rfl⟩ ⟨rfl, rfl⟩
  | _ => exact .acts ⟨⟨rfl, rfl⟩, rfl⟩ rfl

theorem deliver_stride (sink : Sink K) (diagnostic : Diagnostic) :
    Stride client w t (.deliver sink diagnostic) stack (w.deliver client stack sink diagnostic) := by
  cases sink with
  | client name code => exact .tells _
  | recorder => exact .records ⟨⟨rfl, rfl⟩, rfl⟩
  | set members => exact .fansOut trivial

/-! ### Calls -/

section Calls
variable {p : Nat} {point : Point M E K} {m : Move M E K H} {op : Op M E K}

theorem register_stride {interest : Interest} {code : K}
    (h : w.register t stack p point interest code = some m) :
    Stride client w t (.perform op) stack m := by
  unfold register at h
  split at h
  · cases h
  · cases h
    exact .owes _ ⟨rfl, rfl⟩ (by simp [Neat, Point.report])
  · split at h <;> cases h
    · exact .owes _ ⟨rfl, rfl⟩ (by simp [Neat, Point.report, Act.IsGentle])
    · exact .answers _ ⟨rfl, rfl⟩

theorem unregister_stride {id : Nat} (h : w.unregister t stack p point id = some m) :
    Stride client w t (.perform op) stack m := by
  unfold unregister at h
  split at h
  · cases h
    exact .answers _ ⟨rfl, rfl⟩
  · split at h
    · cases h
    · cases h
      exact .answers _ ⟨rfl, rfl⟩
    · dsimp only at h
      split at h <;> cases h
      · exact .serves _ ⟨rfl, rfl⟩
      · exact .answers _ ⟨rfl, rfl⟩

theorem atEnd_stride {notice : Notice K} (h : w.atEnd t stack p point notice = some m) :
    Stride client w t (.perform op) stack m := by
  unfold atEnd at h
  dsimp only at h
  split at h
  · cases h
  · cases h
    exact .answers _ ⟨rfl, rfl⟩
  · repeat' split at h
    all_goals cases h
    · exact .owes _ ⟨rfl, rfl⟩ (by simp [Neat, Point.report, Act.IsGentle])
    · exact .answers _ ⟨rfl, rfl⟩
    · exact .owes _ ⟨rfl, rfl⟩ (by simp [Neat])

theorem push_stride {event : Event M E} (h : w.push t stack p point event = some m) :
    Stride client w t (.perform op) stack m := by
  unfold push at h
  split at h
  · cases h
  · cases h
    exact .answers _ ⟨rfl, rfl⟩
  · split at h <;> cases h
    · exact .owes _ ⟨rfl, rfl⟩ (by simp [Neat, Point.report])
    · exact .serves _ ⟨rfl, rfl⟩

theorem poke_stride : Stride client w t (.perform op) stack (w.poke stack p point) := by
  unfold poke
  repeat' split
  · exact .answers _ ⟨rfl, rfl⟩
  · exact .owes _ ⟨rfl, rfl⟩ (by simp [Neat])
  · exact .owes _ ⟨rfl, rfl⟩ (by simp [Neat, Point.report])

theorem bind_stride {name : String} {producer : K} {config : Config} {sink : Option (Sink K)} :
    Stride client w t (.perform op) stack (w.bind stack p point name producer config sink) :=
  .owes _ ⟨rfl, rfl⟩ (by simp [Neat, Act.IsDue])

theorem perform_stride (h : w.perform client t stack op = some m) :
    Stride client w t (.perform op) stack m := by
  -- a call on a point that does not exist is answered at once
  have absent {reply : Reply M K} (h : some (Move.answer w stack reply) = some m) :
      Stride client w t (.perform op) stack m := by
    cases h
    exact .answers _ ⟨rfl, rfl⟩
  cases op <;> simp only [perform] at h
  case register =>
    split at h
    · exact register_stride h
    · exact absent h
  case unregister =>
    split at h
    · split at h
      · exact unregister_stride h
      · exact absent h
    · exact absent h
  case atEnd =>
    split at h
    · exact atEnd_stride h
    · exact absent h
  case push =>
    split at h
    · exact push_stride h
    · exact absent h
  case poke =>
    split at h
    · cases h
      exact poke_stride
    · exact absent h
  case bind =>
    split at h
    · cases h
      exact bind_stride
    · exact absent h
  case emit =>
    split at h
    · cases h
      exact .owes _ ⟨rfl, rfl⟩ (by simp [Neat])
    · exact absent h
  case inspect => split at h <;> exact absent h
  case report =>
    cases h
    exact .emits _ _ _ _
  case cancel =>
    cases h
    exact .answers _ calm_cancel.toSameThreads
  case attempt =>
    cases h
    exact .attempts _
  case fork code wait =>
    cases h
    cases wait
    · exact .forks _ ⟨rfl, rfl, _, rfl⟩
    · exact .forksAndWaits _ ⟨rfl, rfl, _, rfl⟩
  all_goals
    cases h
    exact .answers _ ⟨rfl, rfl⟩

end Calls

/-! ### Frames -/

theorem phase_eq {p : Nat} {point : Point M E K} (hp : w.points[p]? = some point) :
    w.phase p = point.phase := by
  simp [phase, hp]

/-- The entry whose turn it is is given the event, or passed over. -/
def offer (w : World M E K H) (stack : List (Frame M E K H)) (p : Nat) (point : Point M E K)
    (entry : Entry K) (event : Event M E) : Move M E K H :=
  if entry.heeds event then ⟨w, .act (entry.act event), .delivering p :: .serving p :: stack⟩
  else .answer (w.setPhase p (point.phase.advance true)) (.serving p :: stack) .done

theorem serve_of_due {p : Nat} {point : Point M E K} {entry : Entry K} {event : Event M E}
    (h : point.phase.due = some (entry, event)) :
    w.serve t stack p point = w.offer stack p point entry event := by
  cases hphase : point.phase with
  | listening => simp [hphase, Phase.due] at h
  | dispatching owner pass =>
    cases hwaiting : pass.waiting with
    | nil => simp [hphase, Phase.due, hwaiting] at h
    | cons first rest =>
      obtain ⟨rfl, rfl⟩ : first = entry ∧ pass.event = event := by
        simpa [hphase, Phase.due, hwaiting] using h
      simp [serve, offer, hphase, hwaiting]
  | ended farewell =>
    obtain ⟨last, waiting, late⟩ := farewell
    cases waiting with
    | nil => simp [hphase, Phase.due] at h
    | cons first rest =>
      obtain ⟨rfl, rfl⟩ : first = entry ∧ last = event := by simpa [hphase, Phase.due] using h
      simp [serve, offer, hphase]

theorem serve_stride {p : Nat} {point : Point M E K} (hp : w.points[p]? = some point)
    (reply : Reply M K) :
    Stride client w t (.resume reply) (.serving p :: stack) (w.serve t stack p point) := by
  cases hdue : point.phase.due with
  | some turn =>
    obtain ⟨entry, event⟩ := turn
    rw [serve_of_due hdue]
    unfold offer
    split
    · rename_i heeds
      rw [← phase_eq hp] at hdue
      exact .gives entry event hdue heeds
    · exact .advances ⟨rfl, rfl⟩
  | none =>
    unfold serve
    dsimp only
    split
    · exact .retires ⟨rfl, rfl⟩
    · rename_i owner pass hpass
      split
      · rename_i entry rest hwaiting
        simp [hpass, Phase.due, hwaiting] at hdue
      · dsimp only [Move.answer]
        split
        · exact .retires ⟨rfl, rfl⟩
        · exact .advances ⟨rfl, rfl⟩
    · rename_i farewell hended
      split
      · rename_i entry rest hwaiting
        simp [hended, Phase.due, hwaiting] at hdue
      · exact .drops _ _ ⟨rfl, rfl⟩
      · exact .retires ⟨rfl, rfl⟩

section Turns
variable {control : Control M E K H} {t' : Nat} {stage : Stage K} {w' : World M E K H}

theorem conclude_stride (hc : control.IsReturn) (outcome : Outcome) :
    Stride client w t control (.turn t' stage :: stack) (w.conclude stack t' outcome) :=
  .pops _ hc ⟨⟨rfl, rfl⟩, rfl⟩ trivial

theorem neat_closing (task : Task K) (ending : Ending M K) : Neat (ending.acts client t' task) := by
  cases ending <;>
    simp [Neat, Ending.acts, Ending.outcome, Ending.report, Ending.response, Act.IsDue, Act.IsGentle]

theorem aside_closing (task : Task K) (ending : Ending M K) :
    ∀ act ∈ ending.acts client t' task, act.IsAside := by
  cases ending <;> simp [Ending.acts, Ending.outcome, Ending.report, Ending.response, Act.IsAside]

theorem close_stride (hc : control.IsReturn) (calm : Calm w w') (task : Task K)
    (ending : Ending M K) :
    Stride client w t control (.turn t' stage :: stack) (w'.close client stack t' task ending) :=
  .closes _ hc calm (neat_closing task ending) (aside_closing task ending)

theorem ask_stride (hc : control.IsReturn) (task : Task K) (producer : K) :
    Stride client w t control (.turn t' stage :: stack) (w.ask client stack t' task producer) := by
  unfold ask
  split
  · exact close_stride hc calm_refl task _
  · exact .runsOn _ _ hc (calm_modifyTask _)

theorem park_stride (hc : control.IsReturn) (task : Task K) (wake : Wake) (rest : K) :
    Stride client w t control (.turn t' stage :: stack) (w.park client stack t' task wake rest) := by
  unfold park
  split
  · exact close_stride hc calm_refl task _
  · refine .pops _ hc ?_ trivial
    split
    · exact calm_wake (calm_modifyTask _)
    · exact calm_modifyTask _

theorem resumeTurn_stride (hc : control.IsReturn) (task : Task K) (reply : Reply M K) :
    Stride client w t control (.turn t' stage :: stack)
      (w.resumeTurn client stack t' task stage reply) := by
  unfold resumeTurn
  split
  · exact ask_stride hc task _
  · exact park_stride hc task _ _
  · exact close_stride hc calm_refl task _
  · exact close_stride hc calm_refl task _
  · exact close_stride hc calm_refl task _
  · exact .closes _ hc calm_refl (by simp [Neat]) (by simp [Act.IsAside])
  · exact .runsOn _ _ hc calm_refl
  · exact close_stride hc calm_refl task _
  · exact conclude_stride hc _
  · exact conclude_stride hc _

theorem unwindTurn_stride (hc : control.IsReturn) (task : Task K) (payload : Payload) :
    Stride client w t control (.turn t' stage :: stack)
      (w.unwindTurn client stack t' task stage payload) := by
  unfold unwindTurn
  split
  · exact close_stride hc calm_refl task _
  · exact close_stride hc calm_refl task _
  · exact conclude_stride hc _

end Turns

theorem resume_stride (reply : Reply M K) (frame : Frame M E K H) :
    Stride client w t (.resume reply) (frame :: stack) (w.resume client t stack reply frame) := by
  cases frame with
  | caller next => exact .goesOn next
  | acts p todo answer =>
    cases todo with
    | nil => exact .settles answer
    | cons first todo => exact .proceeds answer
  | serving p =>
    simp only [resume]
    split
    · rename_i point hp
      exact serve_stride hp reply
    · exact .retires ⟨rfl, rfl⟩
  | delivering p =>
    simp only [resume]
    split
    · exact .leaves trivial ⟨rfl, rfl⟩
    · exact .leaves trivial ⟨rfl, rfl⟩
  | fanOut members skip next diagnostic =>
    simp only [resume]
    split
    · exact .pops _ trivial calm_refl trivial
    · split
      · exact .fansOn [_] trivial calm_refl trivial (by simp [Frame.IsFanOut])
      · exact .handsOn _ _ trivial trivial
  | turn t' stage =>
    simp only [resume]
    split
    · exact resumeTurn_stride (Control.isReturn_resume reply) _ reply
    · exact .pops _ trivial calm_refl trivial
  | receiving => exact .pops _ trivial calm_refl trivial
  | catching => exact .pops _ trivial calm_refl trivial

theorem unwind_stride (payload : Payload) (frame : Frame M E K H) :
    Stride client w t (.unwind payload) (frame :: stack) (w.unwind client stack payload frame) := by
  cases frame with
  | delivering p =>
    simp only [unwind]
    split
    · exact .catches _ ⟨rfl, rfl⟩
    · exact .leaves trivial ⟨rfl, rfl⟩
  | fanOut members skip next diagnostic =>
    simp only [unwind]
    split
    · exact .fansOn [_] trivial calm_refl trivial (by simp [Frame.IsFanOut])
    · exact .fansOn [_, _] trivial ⟨⟨rfl, rfl⟩, rfl⟩ trivial (by simp [Frame.IsFanOut])
  | turn t' stage =>
    simp only [unwind]
    split
    · exact unwindTurn_stride (Control.isReturn_unwind payload) _ payload
    · exact .pops _ trivial calm_refl trivial
  | catching => exact .pops _ trivial calm_refl trivial
  | _ => exact .unwinds payload (by simp) id

theorem await_stride {child : Nat} {m : Move M E K H}
    (h : w.move client t stack (.await child) = some m) :
    Stride client w t (.await child) stack m := by
  simp only [move] at h
  split at h
  · cases h
    exact .joins _ (.inl calm_refl)
  · rename_i other hother
    split at h
    · rename_i hover
      have joined : Joined w child { w with threads := w.threads.filter (·.id ≠ child) } :=
        ⟨rfl, rfl, rfl, other, hother, hover⟩
      split at h <;> cases h
      · exact .joinsPanic _ joined
      · exact .joins _ (.inr joined)
    · cases h

/-- Every step of a thread is one of these strides. -/
theorem move_stride {control : Control M E K H} {m : Move M E K H}
    (h : w.move client t stack control = some m) : Stride client w t control stack m := by
  cases control with
  | eval code =>
    cases h
    exact eval_stride code
  | perform op => exact perform_stride h
  | act act =>
    cases h
    exact act_stride act
  | deliver sink diagnostic =>
    cases h
    exact deliver_stride sink diagnostic
  | resume reply =>
    cases stack with
    | nil => cases h
    | cons frame stack =>
      cases h
      exact resume_stride reply frame
  | unwind payload =>
    cases stack with
    | nil => cases h
    | cons frame stack =>
      cases h
      exact unwind_stride payload frame
  | await child => exact await_stride h

end World
end Exchange
