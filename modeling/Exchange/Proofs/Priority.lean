import Exchange.Proofs.Stints

/-!
What goes first within a turn: cancellation, then the producer, then the deadline. The producer is started in
the first turn, whatever has become of its task by then. Once it has been started, cancellation is looked at,
once in a turn; a task that is cancelled is not asked any more. Else its producer is asked once, and what
it answers decides, whatever it has done meanwhile; only if it still waits does its time count.
-/

namespace Exchange
set_option autoImplicit false

variable {M E K H : Type} {client : Client M E K H} {u start w w' : World M E K H} {t n : Nat}
  {thread : Thread M E K H}
variable {control : Control M E K H} {m : Move M E K H} {host : H} {task : Task K} {producer : K}
variable {trail before during after : List (Moment M E K H)} {found : List (Finding M K)}
  {acts : List (Act M E K)}

/-! ## Turns -/

/-- Its task is bound, and neither over nor in the middle of a turn. -/
def TaskState.awaitsTurn : TaskState K → Bool
  | .fresh _ | .parked _ _ => true
  | _ => false

/-- A task that does not wait for a turn is passed over. -/
theorem World.beginTurn_passes
    (h : ∀ task, w.tasks[t]? = some task → task.state.awaitsTurn = false) :
    w.beginTurn client [] t = .answer w [] .done := by
  unfold beginTurn
  dsimp only
  split
  · rfl
  · rename_i task htask
    have hstate := h task htask
    split <;> simp_all [TaskState.awaitsTurn]

/-- A turn of the task, as far as it has come: it lasts until nothing is left to do on the main thread. Other
threads may go on meanwhile, and the clock too. -/
inductive Turn (client : Client M E K H) (t : Nat) (start : World M E K H) :
    List (Moment M E K H) → World M E K H → Prop
  | begins {task : Task K} {ready : List Nat} : start.isIdle → start.ready = t :: ready →
      start.tasks[t]? = some task → task.state.awaitsTurn →
      Turn client t start [] (({ start with ready }.beginTurn client [] t).world.assign
        ({ start with ready }.beginTurn client [] t).control
        ({ start with ready }.beginTurn client [] t).stack)
  | step {during : List (Moment M E K H)} {w w' : World M E K H} {n : Nat}
      {thread : Thread M E K H} : Turn client t start during w → w.isIdle = false →
      w.thread? n = some thread → w.step client n = some w' →
      Turn client t start (during ++ [⟨w, thread⟩]) w'
  | between {during : List (Moment M E K H)} {w w' : World M E K H} :
      Turn client t start during w → w.isIdle = false → Between client w w' →
      Turn client t start during w'

theorem Turn.run (turn : Turn client t start during w) : Run client start during w := by
  induction turn with
  | begins hidle hready => exact .between .refl (.turn hidle hready)
  | step _ _ ht hs ih => exact ih.step ht hs
  | between _ _ hb ih => exact ih.between hb

theorem Turn.trace (fuel : Nat) (turn : Turn client t start during w)
    (hbusy : ∀ m ∈ (w.trace client fuel).1, m.world.isIdle = false) :
    Turn client t start (during ++ (w.trace client fuel).1) (w.trace client fuel).2 :=
  World.trace_induction (Turn client t start) (·.isIdle = false) Turn.step fuel turn hbusy

theorem World.turn_turnTrace {ready : List Nat} (fuel : Nat) (hidle : w.isIdle)
    (hready : w.ready = t :: ready) (hawaits : w.tasks[t]?.any (·.state.awaitsTurn))
    (hbusy : ∀ m ∈ (w.turnTrace client fuel).1, m.world.isIdle = false) :
    Turn client t w (w.turnTrace client fuel).1 (w.turnTrace client fuel).2 := by
  obtain ⟨task, htask, hawaits⟩ := (Option.any_eq_true _ _).mp hawaits
  unfold turnTrace at hbusy ⊢
  rw [hready] at hbusy ⊢
  exact (Turn.begins hidle hready htask hawaits).trace fuel hbusy

/-! ## The parts of a turn -/

namespace Client

/-- Starts the producer of the task. -/
def starting (client : Client M E K H) (producer : K) (t : Nat) : Code M E K H (Reply M K) :=
  (client.start producer t).bind fun code => .ret (.future code)

/-- Asks the producer of the task for its progress. -/
def asking (client : Client M E K H) (producer : K) (t : Nat) : Code M E K H (Reply M K) :=
  (client.poll producer t).bind fun progress => .ret (.progress progress)

end Client

def World.isCancelled (w : World M E K H) (t : Nat) : Bool := w.tasks[t]?.any (·.cancelled)

/-- How the turn comes to the producer: in the first turn it is started, once and for all; later turns go on
with what has been started. -/
inductive Opening (client : Client M E K H) (t : Nat) (trail : List (Moment M E K H))
    (start : World M E K H) : List (Moment M E K H) → World M E K H → K → Prop
  | first {task : Task K} {seed producer : K} {spawn : List (Moment M E K H)} {m : Moment M E K H} :
      start.tasks[t]? = some task → task.state = .fresh seed →
      (∀ m ∈ trail, ¬InTurn t m.thread.stack) →
      Stint client t .starting (client.starting seed t) spawn m.world →
      m.thread = ⟨World.mainThread, .resume (.future producer), [.turn t .starting]⟩ →
      Opening client t trail start (spawn ++ [m]) m.world producer
  | next {task : Task K} {producer : K} {wake : Wake} :
      start.tasks[t]? = some task → task.state = .parked producer wake →
      (∃ m ∈ trail, .turn t .starting ∈ m.thread.stack) →
      Opening client t trail start [] start producer

/-- The rest of the turn, from the state in which it comes to the producer. -/
inductive Asking (client : Client M E K H) (t : Nat) (u : World M E K H) (producer : K) :
    List (Moment M E K H) → World M E K H → Prop
  /-- A task that is cancelled is not asked: nothing is left but to close it. -/
  | declines {after : List (Moment M E K H)} {w : World M E K H} : u.isCancelled t →
      (∀ m ∈ after, ∀ stage, .turn t stage ∈ m.thread.stack → stage = .closing .canceled) →
      Finishing t (fun stage => stage = .closing .canceled) w →
      Asking client t u producer after w
  | polls {poll : List (Moment M E K H)} {w : World M E K H} : u.isCancelled t = false →
      Stint client t .polling (client.asking producer t) poll w →
      Asking client t u producer poll w
  | waits {poll : List (Moment M E K H)} {m : Moment M E K H} {wake : Wake} {rest : K}
      {w : World M E K H} {task : Task K} : u.isCancelled t = false →
      Stint client t .polling (client.asking producer t) poll m.world →
      m.thread = ⟨World.mainThread, .resume (.progress (.waiting wake rest)), [.turn t .polling]⟩ →
      m.finding? t = none → w.isIdle → w.tasks[t]? = some task → task.state = .parked rest wake →
      Asking client t u producer (poll ++ [m]) w
  /-- The producer has come to an end, or still waits when its time is up; it is not asked again. -/
  | ends {poll rest : List (Moment M E K H)} {m : Moment M E K H} {control : Control M E K H}
      {finding : Finding M K} {w : World M E K H} : u.isCancelled t = false →
      Stint client t .polling (client.asking producer t) poll m.world →
      m.thread = ⟨World.mainThread, control, [.turn t .polling]⟩ → m.finding? t = some finding →
      (∀ m ∈ rest, ∀ stage, .turn t stage ∈ m.thread.stack → stage.isLate) →
      Finishing t (fun stage => stage.isLate) w →
      Asking client t u producer (poll ++ m :: rest) w

/-- The course of a turn. Whether the task is cancelled counts in the state in which the turn comes to
the producer. -/
inductive TurnOrder (client : Client M E K H) (t : Nat) (trail : List (Moment M E K H))
    (start : World M E K H) : World M E K H → List (Moment M E K H) → World M E K H → Prop
  | starts {task : Task K} {seed : K} {spawn : List (Moment M E K H)} {w : World M E K H} :
      start.tasks[t]? = some task → task.state = .fresh seed →
      (∀ m ∈ trail, ¬InTurn t m.thread.stack) →
      Stint client t .starting (client.starting seed t) spawn w →
      TurnOrder client t trail start w spawn w
  | asks {before after : List (Moment M E K H)} {u w : World M E K H} {producer : K} :
      Opening client t trail start before u producer → Asking client t u producer after w →
      TurnOrder client t trail start u (before ++ after) w

/-- What has become of the task by the end of the turn: it is cancelled without a push, it waits, or it is
over as the first finding of the turn, the producer's own answer, asks for. -/
inductive Verdict (client : Client M E K H) (t : Nat) (u : World M E K H)
    (during : List (Moment M E K H)) (w : World M E K H) : Prop
  | canceled {task : Task K} : u.isCancelled t → w.tasks[t]? = some task →
      task.state = .over .canceled → findings t during = [] →
      bindingActs t during = [task.report .producerCanceled none] → Verdict client t u during w
  | waits {task : Task K} {rest : K} {wake : Wake} : u.isCancelled t = false →
      w.tasks[t]? = some task → task.state = .parked rest wake → findings t during = [] →
      bindingActs t during = [] → Verdict client t u during w
  | ends {task : Task K} {finding : Finding M K} {later : List (Finding M K)} {outcome : Outcome} :
      u.isCancelled t = false → w.tasks[t]? = some task → task.state = .over outcome →
      findings t during = finding :: later →
      Settles client t task (finding :: later) outcome (bindingActs t during) →
      Verdict client t u during w

/-! ## Asking -/

/-- The turn comes to the producer. -/
theorem Asking.of_asked {v : World M E K H} (hasked : World.Asked client v [] t task producer m)
    (hu : u.isCancelled t = task.cancelled)
    (hafter : w.thread? World.mainThread = some ⟨World.mainThread, m.control, m.stack⟩) :
    Asking client t u producer [] w := by
  cases hasked with
  | cancelled hcancelled =>
    exact .declines (hu.trans hcancelled) (by simp) (.amid [_] hafter rfl rfl)
  | polls hopen =>
    refine .polls (hu.trans (by simpa using hopen)) (.begins hafter ?_)
    exact Code.gives_bind _ fun _ => trivial

/-- The answer of the producer, or its panic, comes back to the turn. -/
theorem Asking.of_turned {poll : List (Moment M E K H)} (hu : u.isCancelled t = false)
    (hstint : Stint client t .polling (client.asking producer t) poll w)
    (htask : w.tasks[t]? = some task)
    (hexpects : ∀ reply, control = .resume reply → (Stage.polling : Stage K).Expects reply)
    (he : Moment.escapes t ⟨w, ⟨World.mainThread, control, [.turn t .polling]⟩⟩ = false)
    (hturned : World.Turned client w t task .polling control m)
    (hafter : w'.thread? World.mainThread = some ⟨World.mainThread, m.control, m.stack⟩)
    (htasks : w'.tasks = m.world.tasks) :
    Asking client t u producer (poll ++ [⟨w, ⟨World.mainThread, control, [.turn t .polling]⟩⟩]) w' := by
  have hfinding : Moment.finding? t ⟨w, ⟨World.mainThread, control, [.turn t .polling]⟩⟩ =
      task.finds w.clock .polling control := Moment.finding?_turn htask
  cases hturned with
  | parks _ hparked hdue =>
    refine .waits hu hstint rfl ?_ ?_ (World.task_of_modify (htasks.trans hparked) htask) rfl
    · rw [hfinding, Task.finds, hdue]
      rfl
    · exact World.isIdle_eq hafter
  | announces failure => exact .ends hu hstint rfl hfinding (by simp) (.amid [_] hafter rfl rfl)
  | closes hfinds => exact .ends hu hstint rfl (hfinding.trans hfinds) (by simp) (.amid [_] hafter rfl rfl)
  | strays _ hnot => exact absurd (hexpects _ rfl) hnot
  | escapes hset =>
    rw [Moment.escapes_of_not_answered htask rfl hset] at he
    cases he

theorem Asking.of_step (h : Asking client t u producer after w) (hw : w.Staged)
    (hidle : w.isIdle = false) (htask : w.tasks[t]? = some task)
    (he : Moment.escapes t ⟨w, thread⟩ = false) (ht : w.thread? n = some thread)
    (hs : w.step client n = some w') : Asking client t u producer (after ++ [⟨w, thread⟩]) w' := by
  cases h with
  | declines hu hstages hfinishing =>
    obtain ⟨hstage, hnext⟩ := hfinishing.of_step (Stage.remains_closing .canceled) hw hidle htask ht hs
    exact .declines hu (List.forall_mem_append.mpr ⟨hstages, List.forall_mem_singleton.mpr hstage⟩) hnext
  | polls hu hstint =>
    by_cases ha : AtTurn t thread.control thread.stack
    · obtain ⟨rfl, control, rfl, hexpects⟩ := hstint.at_turn hw ht ha
      obtain ⟨m, hturned, hafter, htasks⟩ := World.turned_of_step hw.orderly ht hs ha.2 htask
      exact .of_turned hu hstint htask hexpects he hturned hafter htasks
    · exact .polls hu (hstint.of_step hw ht hs ha)
  | waits _ _ _ _ hidle' =>
    rw [hidle] at hidle'
    cases hidle'
  | ends hu hstint hthread hfinding hstages hfinishing =>
    obtain ⟨hstage, hnext⟩ := hfinishing.of_step Stage.remains_late hw hidle htask ht hs
    rw [List.append_assoc, List.cons_append]
    exact .ends hu hstint hthread hfinding
      (List.forall_mem_append.mpr ⟨hstages, List.forall_mem_singleton.mpr hstage⟩) hnext

theorem Asking.of_between (h : Asking client t u producer after w) (hw : w.Staged)
    (hidle : w.isIdle = false) (hb : Between client w w') : Asking client t u producer after w' := by
  cases h with
  | declines hu hstages hfinishing => exact .declines hu hstages (hfinishing.of_between hw hidle hb)
  | polls hu hstint => exact .polls hu (hstint.of_between hw hb)
  | waits _ _ _ _ hidle' =>
    rw [hidle] at hidle'
    cases hidle'
  | ends hu hstint hthread hfinding hstages hfinishing =>
    exact .ends hu hstint hthread hfinding hstages (hfinishing.of_between hw hidle hb)

/-! ## The course of a turn -/

namespace TurnOrder

/-- The turn begins. -/
theorem begins {ready : List Nat} (hw : start.Staged) (hdebut : Debut t trail start)
    (hidle : start.isIdle) (htask : start.tasks[t]? = some task) (hawaits : task.state.awaitsTurn) :
    ∃ u, TurnOrder client t trail start u []
      (({ start with ready }.beginTurn client [] t).world.assign
        ({ start with ready }.beginTurn client [] t).control
        ({ start with ready }.beginTurn client [] t).stack) := by
  have hcalm : Calm { start with ready } ({ start with ready }.beginTurn client [] t).world :=
    World.beginTurn_calm
  have hafter := hw.thread?_assign hcalm.threads ({ start with ready }.beginTurn client [] t).control
    ({ start with ready }.beginTurn client [] t).stack
  have hnone : start.Unattended t := hw.unattended hidle
  have htask' : { start with ready }.tasks[t]? = some task := htask
  cases hstate : task.state with
  | fresh seed =>
    have hfirst : ∀ m ∈ trail, ¬InTurn t m.thread.stack := by
      cases hdebut with
      | ahead _ hbefore => exact hbefore
      | past hpast hnew =>
        cases htask.symm.trans hpast
        rw [hstate] at hnew
        cases hnew
    simp only [World.beginTurn, htask', hstate] at hafter ⊢
    refine ⟨_, .starts htask hstate hfirst (.begins hafter ?_)⟩
    exact Code.gives_bind _ fun _ => trivial
  | parked producer wake =>
    have hstarted : ∃ m ∈ trail, .turn t .starting ∈ m.thread.stack := by
      cases hdebut with
      | ahead hnew =>
        have hnew := hnew task htask
        rw [hstate] at hnew
        cases hnew
      | past _ _ hstarted =>
        refine hstarted.resolve_right ?_
        rintro ⟨other, hother, hstarting⟩
        exact hnone other hother ⟨_, hstarting⟩
    simp only [World.beginTurn, htask', hstate] at hafter ⊢
    refine ⟨_, .asks (.next htask hstate hstarted) (.of_asked (World.ask_asked task producer) ?_ hafter)⟩
    simp [World.isCancelled, htask]
  | _ =>
    rw [hstate] at hawaits
    cases hawaits

theorem of_step (h : TurnOrder client t trail start u during w) (hw : w.Staged) (hidle : w.isIdle = false)
    (htask : w.tasks[t]? = some task) (he : Moment.escapes t ⟨w, thread⟩ = false)
    (ht : w.thread? n = some thread) (hs : w.step client n = some w') :
    ∃ u, TurnOrder client t trail start u (during ++ [⟨w, thread⟩]) w' := by
  cases h with
  | starts hfound hfresh hfirst hstint =>
    by_cases ha : AtTurn t thread.control thread.stack
    · obtain ⟨rfl, control, rfl, hexpects⟩ := hstint.at_turn hw ht ha
      obtain ⟨m, hturned, hafter, -⟩ := World.turned_of_step hw.orderly ht hs ha.2 htask
      cases hturned with
      | @asks producer m hasked =>
        have hopening : Opening client t trail start (during ++ [⟨u, ⟨World.mainThread, _, _⟩⟩]) u producer :=
          .first hfound hfresh hfirst hstint rfl
        have hasking := Asking.of_asked (u := u) hasked (by simp [World.isCancelled, htask]) hafter
        exact ⟨u, List.append_nil (during ++ _) ▸ .asks hopening hasking⟩
      | closes hfinds => simp [Task.finds] at hfinds
      | strays _ hnot => exact absurd (hexpects _ rfl) hnot
      | escapes hset =>
        rw [Moment.escapes_of_not_answered htask rfl hset] at he
        cases he
    · exact ⟨w', .starts hfound hfresh hfirst (hstint.of_step hw ht hs ha)⟩
  | asks hopening hasking =>
    rw [List.append_assoc]
    exact ⟨u, .asks hopening (hasking.of_step hw hidle htask he ht hs)⟩

theorem of_between (h : TurnOrder client t trail start u during w) (hw : w.Staged)
    (hidle : w.isIdle = false) (hb : Between client w w') :
    ∃ u, TurnOrder client t trail start u during w' := by
  cases h with
  | starts hfound hfresh hfirst hstint =>
    exact ⟨w', .starts hfound hfresh hfirst (hstint.of_between hw hb)⟩
  | asks hopening hasking => exact ⟨u, .asks hopening (hasking.of_between hw hidle hb)⟩

end TurnOrder

theorem Turn.awaits (turn : Turn client t start during w) :
    start.isIdle ∧ ∃ task, start.tasks[t]? = some task ∧ task.state.awaitsTurn := by
  induction turn with
  | begins hidle _ htask hawaits => exact ⟨hidle, _, htask, hawaits⟩
  | step _ _ _ _ ih => exact ih
  | between _ _ _ ih => exact ih

theorem Turn.order (turn : Turn client t start during w) (run : Run client (.initial host) trail start)
    (he : ∀ m ∈ during, m.escapes t = false) : ∃ u, TurnOrder client t trail start u during w := by
  induction turn with
  | begins hidle _ htask hawaits => exact TurnOrder.begins run.staged run.debut hidle htask hawaits
  | @step during w w' n thread turn hidle ht hs ih =>
    obtain ⟨u, horder⟩ := ih fun m hm => he m (List.mem_append_left _ hm)
    obtain ⟨-, task, htask, -⟩ := turn.awaits
    obtain ⟨task', htask', -⟩ := turn.run.task_later htask
    exact horder.of_step (run.trans turn.run).staged hidle htask'
      (he _ (List.mem_append_right _ List.mem_cons_self)) ht hs
  | between turn hidle hb ih =>
    obtain ⟨u, horder⟩ := ih he
    exact horder.of_between (run.trans turn.run).staged hidle hb

/-! ## What is found, and done -/

theorem Stint.findings {stage : Stage K} {code : Code M E K H (Reply M K)}
    (h : Stint client t stage code trail w) : findings t trail = [] := by
  refine List.filterMap_eq_nil_iff.mpr ?_
  intro m hm
  exact Moment.finding?_eq_none (h.above m hm)

theorem Opening.findings (h : Opening client t trail start before u producer) :
    Exchange.findings t before = [] := by
  cases h with
  | @first _ _ _ spawn m _ _ _ hstint hthread =>
    have hnone : m.finding? t = none := by
      unfold Moment.finding?
      rw [hthread]
      split
      · split <;> simp_all [Task.finds]
      · rfl
    rw [findings_snoc, hstint.findings, hnone]
    rfl
  | next => rfl

/-- Nothing is found at stages at which no code of the producer runs. -/
theorem findings_of_closing {outcome : Outcome}
    (h : ∀ m ∈ after, ∀ stage, .turn t stage ∈ m.thread.stack → stage = .closing outcome) :
    findings t after = [] := by
  refine List.filterMap_eq_nil_iff.mpr ?_
  intro m hm
  unfold Moment.finding?
  split
  · rename_i v stage rest task hstack _
    split
    · rename_i hsame
      subst hsame
      rw [h m hm stage (hstack ▸ List.mem_cons_self)]
      rfl
    · rfl
  · rfl

/-- At rest a task that is not over has had nothing found of its producer, nor anything done for it. -/
theorem Account.nothing (h : Account client t w found acts) (hnone : w.Unattended t)
    (ht : w.tasks[t]? = some task) (hopen : task.state.outcome? = none) : found = [] ∧ acts = [] := by
  cases h with
  | before => exact ⟨rfl, rfl⟩
  | during _ _ hmem htenure => exact absurd htenure.inTurn (hnone _ hmem)
  | after ht' hover =>
    cases ht.symm.trans ht'
    rw [hover] at hopen
    cases hopen

theorem Asking.verdict (h : Asking client t u producer after w) (hidle : w.isIdle) (hnone : w.Unattended t)
    (hbefore : findings t before = [])
    (haccount : Account client t w (findings t (before ++ after)) (bindingActs t (before ++ after))) :
    Verdict client t u (before ++ after) w := by
  have hfindings : findings t (before ++ after) = findings t after := by
    rw [findings_append, hbefore, List.nil_append]
  cases h with
  | declines hu hstages hfinishing =>
    obtain ⟨task, outcome, htask, hover⟩ := hfinishing.ended_of_isIdle hidle
    have hfound := hfindings.trans (findings_of_closing hstages)
    have hsettles := haccount.settles htask (by rw [hover]; rfl)
    rw [hfound] at hsettles
    generalize hacts : bindingActs t (before ++ after) = acts at hsettles
    cases hsettles with
    | cancelled => exact .canceled hu htask hover hfound hacts
  | polls hu hstint =>
    rw [hstint.not_isIdle] at hidle
    cases hidle
  | waits hu hstint hthread hfinding _ htask hparked =>
    obtain ⟨hfound, hacts⟩ := haccount.nothing hnone htask (by rw [hparked]; rfl)
    exact .waits hu htask hparked hfound hacts
  | @ends poll rest m control finding _ hu hstint hthread hfinding _ hfinishing =>
    obtain ⟨task, outcome, htask, hover⟩ := hfinishing.ended_of_isIdle hidle
    have hfound : findings t (before ++ (poll ++ m :: rest)) = finding :: findings t rest := by
      rw [hfindings, findings_append, hstint.findings, List.nil_append]
      exact List.filterMap_cons_some hfinding
    exact .ends hu htask hover hfound (hfound ▸ haccount.settles htask (by rw [hover]; rfl))

/-- A turn keeps its order, in every run in which no panic escapes from the turn. In the first turn, and in no
other, the producer is started, also for a task that is cancelled. If the task is cancelled when the turn comes
to the producer, it is not asked; if the sinks return normally it is canceled in the end, and nothing is pushed.
Else the producer is asked once; if it comes to an end its own answer is what is found first, from which the
outcome follows, and only if it still waits is the deadline looked at. A task that does not wait for a turn has
none: nothing is done when it comes up. -/
theorem turns_keep_their_order (run : Run client (.initial host) trail start)
    (turn : Turn client t start during w) (he : ∀ m ∈ trail ++ during, m.escapes t = false) :
    (∃ u, TurnOrder client t trail start u during w ∧
      (SinksReturn (trail ++ during) → w.isIdle → Verdict client t u during w)) ∧
    ∀ n ready, (∀ task, start.tasks[n]? = some task → task.state.awaitsTurn = false) →
      { start with ready }.beginTurn client [] n = .answer { start with ready } [] .done := by
  obtain ⟨u, horder⟩ := turn.order run fun m hm => he m (List.mem_append_right _ hm)
  refine ⟨⟨u, horder, ?_⟩, fun n ready hn => World.beginTurn_passes hn⟩
  intro hs hidle
  obtain ⟨hstart, task, htask, hawaits⟩ := turn.awaits
  have whole := run.trans turn.run
  have hnone : w.Unattended t := whole.staged.unattended hidle
  have hopen : task.state.outcome? = none := by
    cases hstate : task.state <;> simp_all [TaskState.awaitsTurn, TaskState.outcome?]
  -- nothing has been found or done before the turn
  have hearlier := run.account (sinksReturn_append.mp hs).1 fun m hm => he m (List.mem_append_left _ hm)
  obtain ⟨hfound, hacts⟩ := hearlier.nothing (run.staged.unattended hstart) htask hopen
  have haccount := whole.account hs he
  rw [findings_append, bindingActs_append, hfound, hacts, List.nil_append, List.nil_append] at haccount
  cases horder with
  | starts _ _ _ hstint =>
    rw [hstint.not_isIdle] at hidle
    cases hidle
  | asks hopening hasking => exact hasking.verdict hidle hnone hopening.findings haccount

/-- A client whose producers cancel their own tasks, and then report success. -/
def hastyClient : Client Unit Unit Bool Unit :=
  { plainClient with poll := fun _ t => .call (.cancel t) fun _ => .ret (.done (.ok ())) }

theorem turns_keep_their_order_hasty :
    let bound := World.runCalls hastyClient () [.create "request" .recorder,
      .register 0 .active true, .bind 0 "producer" true {} none] 40
    let after := (bound.2.turnTrace hastyClient 60).2
    after.isCancelled 0 ∧ ∃ task, after.tasks[0]? = some task ∧ task.state = .over .completed ∧
      bindingActs 0 (bound.2.turnTrace hastyClient 60).1 = [] := by
  intro bound after
  have turn : Turn hastyClient 0 bound.2 (bound.2.turnTrace hastyClient 60).1 after :=
    World.turn_turnTrace 60 (by decide) (by decide : bound.2.ready = [0]) (by decide) (by decide)
  have hcompleted : (after.tasks[0]?.bind fun task => task.state.outcome?) = some .completed := by decide
  obtain ⟨⟨u, -, hverdict⟩, -⟩ :=
    turns_keep_their_order (World.run_runCalls hastyClient () _ 40) turn (by decide)
  refine ⟨by decide, ?_⟩
  cases hverdict (by decide) (by decide) with
  | canceled _ htask hover => simp [htask, hover, TaskState.outcome?] at hcompleted
  | waits _ htask hparked => simp [htask, hparked, TaskState.outcome?] at hcompleted
  | @ends task finding later outcome _ htask hover _ hsettles =>
    obtain rfl : outcome = .completed := by simpa [htask, hover, TaskState.outcome?] using hcompleted
    refine ⟨task, htask, hover, ?_⟩
    generalize bindingActs 0 _ = done at hsettles ⊢
    cases hsettles with
    | completed => rfl

/-- A task that is cancelled before its first turn is canceled in it, though its producer has nothing left
to do. -/
example :
    let bound := World.runCalls plainClient () [.create "request" .recorder,
      .register 0 .active true, .bind 0 "producer" true {} none, .cancel 0] 60
    ((bound.2.turnTrace plainClient 60).2.tasks[0]?.bind fun task => task.state.outcome?) =
      some .canceled := by decide

end Exchange
