import Exchange.Proofs.Discipline
import Exchange.Proofs.Tasks

/-!
Where turns stand. A turn is the last frame of the main thread's stack: nothing begins one but the
schedule, and only while nothing is left to do on that thread. Above it the client's code runs, or the
binding's own acts, which panics do not reach.
-/

namespace Exchange
set_option autoImplicit false

variable {M E K H : Type} {client : Client M E K H} {w w' : World M E K H} {t n : Nat}
  {thread : Thread M E K H}
variable {control : Control M E K H} {stack : List (Frame M E K H)} {m : Move M E K H}

/-! ## One turn, at the bottom of the main thread -/

def Frame.isTurn : Frame M E K H → Bool
  | .turn _ _ => true
  | _ => false

/-- A turn is the last frame. -/
def Rooted : List (Frame M E K H) → Prop
  | [] => True
  | frame :: stack => (frame.isTurn → stack = []) ∧ Rooted stack

/-- The turn of the task has begun and is not over. -/
def InTurn (t : Nat) (stack : List (Frame M E K H)) : Prop := ∃ stage, .turn t stage ∈ stack

theorem Frame.IsFanOut.isTurn {frame : Frame M E K H} (h : frame.IsFanOut) :
    frame.isTurn = false := by
  cases frame <;> first | rfl | exact h.elim

theorem rooted_append {frames : List (Frame M E K H)} (hf : ∀ frame ∈ frames, frame.isTurn = false)
    (hs : Rooted stack) : Rooted (frames ++ stack) := by
  induction frames with
  | nil => exact hs
  | cons frame frames ih =>
    refine ⟨by simp [hf frame List.mem_cons_self], ih ?_⟩
    intro other hother
    exact hf other (List.mem_cons_of_mem _ hother)

theorem inTurn_append {frames : List (Frame M E K H)} (hf : ∀ frame ∈ frames, frame.isTurn = false)
    (h : InTurn t (frames ++ stack)) : InTurn t stack := by
  obtain ⟨stage, hmem⟩ := h
  rcases List.mem_append.mp hmem with hmem | hmem
  · cases hf _ hmem
  · exact ⟨stage, hmem⟩

/-- Frames come and go above the turn, which may get to another stage. -/
theorem Stride.rooted (h : Stride client w n control stack m) (hs : Rooted stack) :
    Rooted m.stack ∧ ∀ t, InTurn t m.stack → InTurn t stack := by
  have pushed (frames : List (Frame M E K H)) (hm : m.stack = frames ++ stack)
      (hf : ∀ frame ∈ frames, frame.isTurn = false) :
      Rooted m.stack ∧ ∀ t, InTurn t m.stack → InTurn t stack := by
    rw [hm]
    exact ⟨rooted_append hf hs, fun t => inTurn_append hf⟩
  have replaced {frame : Frame M E K H} {rest : List (Frame M E K H)}
      (frames : List (Frame M E K H)) (hstack : stack = frame :: rest)
      (hm : m.stack = frames ++ rest) (hf : ∀ frame ∈ frames, frame.isTurn = false) :
      Rooted m.stack ∧ ∀ t, InTurn t m.stack → InTurn t stack := by
    subst hstack
    rw [hm]
    refine ⟨rooted_append hf hs.2, ?_⟩
    intro t hturn
    obtain ⟨stage, hmem⟩ := inTurn_append hf hturn
    exact ⟨stage, List.mem_cons_of_mem _ hmem⟩
  cases h with
  | calls => exact pushed [_] rfl (by simp [Frame.isTurn])
  | owes => exact pushed [_] rfl (by simp [Frame.isTurn])
  | serves => exact pushed [_] rfl (by simp [Frame.isTurn])
  | attempts => exact pushed [_] rfl (by simp [Frame.isTurn])
  | tells => exact pushed [_] rfl (by simp [Frame.isTurn])
  | fansOut hf => exact pushed [_] rfl (by simp [hf.isTurn])
  | goesOn => exact replaced [] rfl rfl (by simp)
  | handsOn _ _ _ hf => exact replaced [_] rfl rfl (by simp [hf.isTurn])
  | fansOn frames _ _ _ hf => exact replaced frames rfl rfl fun frame h => (hf frame h).isTurn
  | @runsOn _ rest t' stage _ stage' =>
    obtain rfl : rest = [] := hs.1 rfl
    refine ⟨⟨fun _ => rfl, trivial⟩, ?_⟩
    rintro t ⟨other, hmem⟩
    obtain ⟨rfl, -⟩ : t = t' ∧ other = stage' := by simpa using hmem
    exact ⟨stage, List.mem_cons_self⟩
  | @closes _ rest t' stage _ _ _ stage' =>
    obtain rfl : rest = [] := hs.1 rfl
    refine ⟨⟨by simp [Frame.isTurn], fun _ => rfl, trivial⟩, ?_⟩
    rintro t ⟨other, hmem⟩
    obtain ⟨rfl, -⟩ : t = t' ∧ other = stage' := by simpa using hmem
    exact ⟨stage, List.mem_cons_self⟩
  | pops => exact replaced [] rfl rfl (by simp)
  | unwinds => exact replaced [] rfl rfl (by simp)
  | settles => exact replaced [] rfl rfl (by simp)
  | proceeds => exact replaced [_] rfl rfl (by simp [Frame.isTurn])
  | gives => exact pushed [_] rfl (by simp [Frame.isTurn])
  | retires => exact replaced [] rfl rfl (by simp)
  | leaves => exact replaced [] rfl rfl (by simp)
  | catches => exact replaced [] rfl rfl (by simp)
  | _ => exact pushed [] rfl (by simp)

namespace World

/-- Turns are on the main thread, each as the last frame. -/
structure Rooted (w : World M E K H) : Prop where
  last : ∀ thread ∈ w.threads, Exchange.Rooted thread.stack
  main : ∀ thread ∈ w.threads, ∀ t, InTurn t thread.stack → thread.id = mainThread

/-- How the producer is asked: not at all if its task has been cancelled. -/
inductive Asked (client : Client M E K H) (w : World M E K H) (stack : List (Frame M E K H)) (t : Nat)
    (task : Task K) (producer : K) : Move M E K H → Prop
  | cancelled : task.cancelled → Asked client w stack t task producer
      (w.close client stack t task .canceled)
  | polls : ¬task.cancelled → Asked client w stack t task producer
      ⟨w.modifyTask t fun other => { other with
          deadline := task.deadline <|> task.config.deadline.map fun limit => w.clock + limit.millisUp },
        .eval ((client.poll producer t).bind fun progress => .ret (.progress progress)),
        .turn t .polling :: stack⟩

theorem ask_asked (task : Task K) (producer : K) :
    Asked client w stack t task producer (w.ask client stack t task producer) := by
  unfold ask
  split
  · exact .cancelled ‹_›
  · exact .polls ‹_›

/-- How a turn begins: a task that cannot have one is passed over. -/
inductive Begun (client : Client M E K H) (w : World M E K H) (t : Nat) : Move M E K H → Prop
  | passes : Begun client w t (.answer w [] .done)
  | starts {task : Task K} {producer : K} : w.tasks[t]? = some task →
      task.state = .fresh producer →
      Begun client w t ⟨w.modifyTask t fun task => { task with state := .running },
        .eval ((client.start producer t).bind fun code => .ret (.future code)), [.turn t .starting]⟩
  | asks {task : Task K} {producer : K} {wake : Wake} {m : Move M E K H} :
      w.tasks[t]? = some task → task.state = .parked producer wake →
      Asked client (w.modifyTask t fun task => { task with state := .running }) [] t task producer m →
      Begun client w t m

theorem beginTurn_begun : Begun client w t (w.beginTurn client [] t) := by
  unfold beginTurn
  dsimp only
  split
  · exact .passes
  · rename_i task ht
    split
    · exact .starts ht ‹_›
    · exact .asks ht ‹_› (ask_asked task _)
    · exact .passes

/-- What the schedule gives the main thread to do. -/
inductive Scheduled (client : Client M E K H) (w : World M E K H) : Thread M E K H → Prop
  | code (code : Code M E K H (Reply M K)) : Scheduled client w ⟨mainThread, .eval code, []⟩
  | turn {t : Nat} {ready : List Nat} {m : Move M E K H} : w.ready = t :: ready →
      Begun client { w with ready } t m → Scheduled client w ⟨mainThread, m.control, m.stack⟩

theorem mem_assign (h : thread ∈ (w.assign control stack).threads) :
    thread ∈ w.threads ∨ thread = ⟨mainThread, control, stack⟩ := by
  obtain ⟨other, hother, heq⟩ := List.mem_map.mp h
  split at heq
  · rename_i hid
    right
    rw [← heq, ← hid]
  · exact .inl (heq ▸ hother)

theorem between_threads (hb : Between client w w') (h : thread ∈ w'.threads) :
    thread ∈ w.threads ∨ Scheduled client w thread := by
  cases hb with
  | code code =>
    rcases mem_assign h with h | rfl
    · exact .inl h
    · exact .inr (.code _)
  | @turn t ready hidle hready =>
    rcases mem_assign h with h | rfl
    · left
      have hcalm : Calm { w with ready } ({ w with ready }.beginTurn client [] t).world :=
        beginTurn_calm
      exact hcalm.threads ▸ h
    · exact .inr (.turn hready beginTurn_begun)
  | clock time => exact .inl ((calm_advance time).threads ▸ h)
  | host change => exact .inl h
  | reap => exact .inl (List.mem_of_mem_filter h)

theorem Asked.rooted {task : Task K} {producer : K} (h : Asked client w [] t task producer m) :
    Exchange.Rooted m.stack := by
  cases h with
  | cancelled => exact ⟨by simp [Frame.isTurn], fun _ => rfl, trivial⟩
  | polls => exact ⟨fun _ => rfl, trivial⟩

theorem Scheduled.rooted (h : Scheduled client w thread) : Exchange.Rooted thread.stack := by
  cases h with
  | code => trivial
  | turn _ hbegun =>
    cases hbegun with
    | passes => trivial
    | starts => exact ⟨fun _ => rfl, trivial⟩
    | asks _ _ hasked => exact hasked.rooted

theorem Scheduled.id (h : Scheduled client w thread) : thread.id = mainThread := by
  cases h <;> rfl

theorem initial_rooted (host : H) : (initial host : World M E K H).Rooted := by
  constructor
  · intro thread hthread
    rw [List.mem_singleton.mp hthread]
    trivial
  · intro thread hthread t
    rw [List.mem_singleton.mp hthread]
    rintro ⟨stage, hmem⟩
    cases hmem

theorem not_inTurn_nil : ¬InTurn t ([] : List (Frame M E K H)) := by
  rintro ⟨stage, hmem⟩
  cases hmem

theorem Rooted.of_step (h : w.Rooted) (ho : w.Orderly) (ht : w.thread? n = some thread)
    (hs : w.step client n = some w') : w'.Rooted := by
  obtain ⟨⟨m, -, stepped⟩, -⟩ := step_stepped ho ht hs
  have hmem := mem_of_thread? ht
  obtain ⟨hrooted, hturns⟩ := stepped.stride.rooted (h.last thread hmem)
  constructor
  · intro other hother
    rcases stepped.succession.others_after hother with rfl | hbefore | hbare
    · exact hrooted
    · exact h.last other hbefore
    · rw [hbare.stack_eq]
      trivial
  · intro other hother t hturn
    rcases stepped.succession.others_after hother with rfl | hbefore | hbare
    · exact h.main thread hmem t (hturns t hturn)
    · exact h.main other hbefore t hturn
    · exact absurd (hbare.stack_eq ▸ hturn) not_inTurn_nil

theorem Rooted.of_between (h : w.Rooted) (hb : Between client w w') : w'.Rooted := by
  constructor
  · intro other hother
    rcases between_threads hb hother with hbefore | hscheduled
    · exact h.last other hbefore
    · exact hscheduled.rooted
  · intro other hother t hturn
    rcases between_threads hb hother with hbefore | hscheduled
    · exact h.main other hbefore t hturn
    · exact hscheduled.id

end World

/-! ## Code with an answer of one kind -/

/-- All values that the code may come to are of that kind. -/
def Code.Gives {α : Type} (kind : α → Prop) : Code M E K H α → Prop
  | .ret value => kind value
  | .panic _ => True
  | .host _ next => ∀ state, (next state).Gives kind
  | .call _ next => ∀ reply, (next reply).Gives kind

theorem Code.gives_bind {α β : Type} {kind : β → Prop} (code : Code M E K H α) {f : α → β}
    (h : ∀ value, kind (f value)) : (code.bind fun value => .ret (f value)).Gives kind := by
  induction code with
  | ret value => exact h value
  | panic => trivial
  | host change next ih => exact ih
  | call op next ih => exact ih

/-- What the producer's code comes to at that stage. -/
def Stage.Expects : Stage K → Reply M K → Prop
  | .starting, .future _ | .polling, .progress _ | .rendering, .rendered _ => True
  | _, _ => False

/-- The producer's code runs above its turn, or has come to an end. -/
inductive Working (t : Nat) (stage : Stage K) : Control M E K H → List (Frame M E K H) → Prop
  | runs {code : Code M E K H (Reply M K)} : code.Gives stage.Expects →
      Working t stage (.eval code) [.turn t stage]
  | gives {reply : Reply M K} : stage.Expects reply → Working t stage (.resume reply) [.turn t stage]
  | panics {payload : Payload} : Working t stage (.unwind payload) [.turn t stage]
  | calls {next : Reply M K → Code M E K H (Reply M K)} {control : Control M E K H}
      (above : List (Frame M E K H)) : (∀ reply, (next reply).Gives stage.Expects) →
      Working t stage control (above ++ [.caller next, .turn t stage])

/-- A frame goes only when something comes back to it. -/
theorem Stride.keeps (h : Stride client w n control stack m) (hs : Seated stack)
    (hc : ¬control.IsReturn) : ∃ frames, m.stack = frames ++ stack := by
  obtain ⟨gone, come, rest, shape⟩ := h.shape hs
  rcases shape.popped with rfl | ⟨hreturn, -⟩
  · exact ⟨come, by rw [shape.before, shape.after]; rfl⟩
  · exact absurd hreturn hc

/-- Of a stack only the uppermost frame can go. -/
theorem Stride.base {frame : Frame M E K H} {above base : List (Frame M E K H)}
    (h : Stride client w n control (frame :: (above ++ base)) m) (hs : Seated (frame :: (above ++ base))) :
    ∃ frames, m.stack = frames ++ base ∧ (frames = [] → above = [] ∧ control.IsReturn ∧
      ∀ due, m.control = .act due → ∃ p, base.head? = some (.serving p)) := by
  obtain ⟨gone, come, rest, shape⟩ := h.shape hs
  rw [shape.after]
  rcases shape.popped with rfl | ⟨hreturn, top, rfl⟩
  · obtain rfl : _ = rest := shape.before
    exact ⟨come ++ frame :: above, by simp, by simp⟩
  · obtain ⟨rfl, rfl⟩ := List.cons.inj shape.before
    refine ⟨come ++ above, (List.append_assoc ..).symm, ?_⟩
    intro hnil
    obtain ⟨hcome, rfl⟩ := List.append_eq_nil_iff.mp hnil
    refine ⟨rfl, hreturn, ?_⟩
    intro due hdue
    rcases shape.act hcome due hdue with ⟨op, rfl⟩ | hserving
    · exact hreturn.elim
    · exact hserving

theorem Working.step {stage : Stage K} (h : Working t stage control stack)
    (hm : w.move client n stack control = some m) (hs : Seated stack) :
    Working t stage m.control m.stack ∨ stack = [.turn t stage] ∧ control.IsReturn := by
  cases h with
  | @runs code hgives =>
    left
    cases hm
    cases code with
    | ret reply => exact .gives hgives
    | panic payload => exact .panics
    | host change next => exact .runs (hgives w.host)
    | call op next => exact .calls [] hgives
  | gives => exact .inr ⟨rfl, trivial⟩
  | panics => exact .inr ⟨rfl, trivial⟩
  | @calls next control above hgives =>
    left
    cases above with
    | cons frame above =>
      rw [List.cons_append] at hm hs
      obtain ⟨frames, hstack, -⟩ := (World.move_stride hm).base hs
      rw [hstack]
      exact .calls frames hgives
    | nil =>
      by_cases hreturn : control.IsReturn
      · cases control with
        | resume reply =>
          cases hm
          exact .runs (hgives reply)
        | unwind payload =>
          cases hm
          exact .panics
        | _ => exact hreturn.elim
      · obtain ⟨frames, hstack⟩ := (World.move_stride hm).keeps hs hreturn
        rw [hstack]
        exact .calls frames hgives

end Exchange
