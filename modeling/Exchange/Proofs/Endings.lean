import Exchange.Proofs.Turns

/-!
What a turn comes to. What the producer's code, and the code that renders its failure, have come to is
found when something comes back to the turn; for each way to end there is one row that says what the
binding reports and pushes.
-/

namespace Exchange
set_option autoImplicit false

variable {M E K H : Type} {client : Client M E K H} {w w' : World M E K H} {t : Nat}
variable {control : Control M E K H} {m : Move M E K H} {task task' : Task K}

/-- What the code of a producer has come to. -/
inductive Finding (M K : Type) where
  | returned (result : Except (ProducerFailure K) Unit)
  | panicked (payload : Payload)
  /-- It still waits when its time is up. -/
  | overdue
  | rendered (result : Except RenderingFailure (Option M))
  | renderingPanicked (payload : Payload)

namespace Finding

/-- The ending that the binding sees in it; none if a failure has first to be rendered. -/
def ending? (limit : Duration) : Finding M K → Option (Ending M K)
  | .returned (.ok _) => some .completed
  | .returned (.error .canceled) => some .canceled
  | .returned (.error (.fail cause)) => some (.failed cause)
  | .returned (.error (.render _)) => none
  | .panicked payload => some (.panicked payload.info)
  | .overdue => some (.timedOut limit)
  | .rendered result => some (.ofRendering result)
  | .renderingPanicked payload => some (.renderFailed (.panicked payload.info))

/-- It is the rendering of a failure that came to this. -/
def isOfRendering : Finding M K → Bool
  | .rendered _ | .renderingPanicked _ => true
  | _ => false

end Finding

/-- What is found when a reply or a panic comes back to the turn. -/
def Task.finds (task : Task K) (clock : Nat) :
    Stage K → Control M E K H → Option (Finding M K)
  | .polling, .resume (.progress (.done result)) => some (.returned result)
  | .polling, .resume (.progress (.waiting _ _)) =>
    if task.deadline.any (· ≤ clock) then some .overdue else none
  | .polling, .unwind payload => some (.panicked payload)
  | .rendering, .resume (.rendered result) => some (.rendered result)
  | .rendering, .unwind payload => some (.renderingPanicked payload)
  | _, _ => none

theorem Task.finds_polling {finding : Finding M K} {clock : Nat}
    (h : task.finds clock .polling control = some finding) :
    finding.isOfRendering = false ∧ (finding = .overdue → task.deadline.isSome) := by
  cases control with
  | resume reply =>
    cases reply with
    | progress progress =>
      cases progress with
      | done result =>
        cases h
        exact ⟨rfl, nofun⟩
      | waiting wake rest =>
        simp only [Task.finds] at h
        split at h
        · rename_i hdue
          cases h
          refine ⟨rfl, fun _ => ?_⟩
          cases hset : task.deadline with
          | some time => rfl
          | none => simp [hset] at hdue
        · cases h
    | _ => cases h
  | unwind payload =>
    cases h
    exact ⟨rfl, nofun⟩
  | _ => cases h

theorem Task.finds_rendering {finding : Finding M K} {clock : Nat}
    (h : task.finds clock .rendering control = some finding) : finding.isOfRendering := by
  cases control with
  | resume reply =>
    cases reply with
    | rendered result =>
      cases h
      rfl
    | _ => cases h
  | unwind payload =>
    cases h
    rfl
  | _ => cases h

def Moment.finding? (t : Nat) (m : Moment M E K H) : Option (Finding M K) :=
  match m.thread.stack, m.world.tasks[t]? with
  | .turn u stage :: _, some task =>
    if u = t then task.finds m.world.clock stage m.thread.control else none
  | _, _ => none

/-- The producer's own code runs, or that which renders its failure. -/
def Stage.runsCode : Stage K → Bool
  | .starting | .polling | .rendering => true
  | _ => false

/-- Panics of the producer at that stage are answered, if the binding is set to do so. -/
def Stage.isAnswered : Stage K → Bool
  | .polling | .rendering => true
  | _ => false

/-- A panic of the producer's code gets past the turn: it comes from the start of the producer, or the
binding does not answer panics. -/
def Moment.escapes (t : Nat) (m : Moment M E K H) : Bool :=
  match m.thread with
  | ⟨_, .unwind _, .turn u stage :: _⟩ => u = t && stage.runsCode &&
    !(stage.isAnswered && (m.world.tasks[t]?).any fun task => task.config.answersPanics)
  | _ => false

/-! ## The rows -/

namespace Task

/-- A report of the binding. -/
def report (task : Task K) (kind : Kind) (reason : Option String) : Act M E K :=
  .report task.sink kind (some task.name) reason

/-- The final response that the binding pushes on the producer's behalf. -/
def answer (task : Task K) (response : M) : Act M E K :=
  .call (.push task.point (.ofResponse response true))

def announcement (task : Task K) (failure : Renderable K) : Act M E K :=
  task.report .renderableFailure (some failure.message)

end Task

/-- Why a failure that is rendered gives no response. -/
inductive Unrendered : Finding M K → RenderingFailure → Prop
  | empty : Unrendered (.rendered (.ok none)) .empty
  | failed (error : RenderingFailure) : Unrendered (.rendered (.error error)) error
  | panicked (payload : Payload) : Unrendered (.renderingPanicked payload) (.panicked payload.info)

/-- From what is found of a producer, in which order, follows the outcome of its task, and what the
binding does: one row for each way to end. -/
inductive Settles (client : Client M E K H) (t : Nat) (task : Task K) :
    List (Finding M K) → Outcome → List (Act M E K) → Prop
  | completed : Settles client t task [.returned (.ok ())] .completed []
  | cancelled : task.cancelled →
      Settles client t task [] .canceled [task.report .producerCanceled none]
  | gaveUp : Settles client t task [.returned (.error .canceled)] .canceled
      [task.report .producerCanceled none]
  | rendered (failure : Renderable K) (response : M) :
      Settles client t task
        [.returned (.error (.render failure)), .rendered (.ok (some response))] .rendered
        [task.announcement failure, task.answer response]
  | renderFailed (failure : Renderable K) {finding : Finding M K} {error : RenderingFailure} :
      Unrendered finding error →
      Settles client t task [.returned (.error (.render failure)), finding] .renderFailed
        [task.announcement failure, task.report .renderFailed (some error.message),
          task.answer client.internalError]
  | failed (cause : Cause K) : Settles client t task [.returned (.error (.fail cause))] .failed
      [task.report .producerFailed (some cause.explanation), task.answer client.internalError]
  | panicked (payload : Payload) : Settles client t task [.panicked payload] .panicked
      [task.report .producerPanicked (some payload.info), task.answer client.internalError]
  | timedOut {limit : Duration} : task.config.deadline = some limit →
      Settles client t task [.overdue] .timedOut
        [.cancel t, task.report .producerTimedOut (some limit.text), task.answer client.timeout]

theorem Settles.later {findings : List (Finding M K)} {outcome : Outcome} {acts : List (Act M E K)}
    (h : Settles client t task findings outcome acts) (hl : task.Later task') :
    Settles client t task' findings outcome acts := by
  have hreport (kind : Kind) (reason : Option String) :
      (task.report kind reason : Act M E K) = task'.report kind reason := by
    simp only [Task.report, hl.name, hl.sink]
  have hanswer (response : M) : (task.answer response : Act M E K) = task'.answer response := by
    simp only [Task.answer, hl.point]
  have hannounce (failure : Renderable K) :
      (task.announcement failure : Act M E K) = task'.announcement failure := hreport _ _
  cases h with
  | completed => exact .completed
  | cancelled hc => exact hreport .producerCanceled none ▸ .cancelled (hl.cancelled hc)
  | gaveUp => exact hreport .producerCanceled none ▸ .gaveUp
  | rendered failure response =>
    rw [hannounce, hanswer]
    exact .rendered failure response
  | renderFailed failure hun =>
    rw [hannounce, hreport, hanswer]
    exact .renderFailed failure hun
  | failed cause =>
    rw [hreport, hanswer]
    exact .failed cause
  | panicked payload =>
    rw [hreport, hanswer]
    exact .panicked payload
  | timedOut hlimit =>
    rw [hreport, hanswer]
    exact .timedOut (hl.config ▸ hlimit)

/-- The row of what is found before a failure is rendered, or instead. -/
theorem settles_of_ending {finding : Finding M K} {ending : Ending M K}
    (h : finding.ending? task.config.timeout = some ending)
    (hlimit : finding = .overdue → task.config.deadline = some task.config.timeout)
    (hearly : finding.isOfRendering = false) :
    Settles client t task [finding] ending.outcome (ending.acts client t task) := by
  cases finding with
  | returned result =>
    cases result with
    | ok value =>
      cases h
      exact .completed
    | error failure =>
      cases failure with
      | canceled =>
        cases h
        exact .gaveUp
      | fail cause =>
        cases h
        exact .failed cause
      | render => cases h
  | panicked payload =>
    cases h
    exact .panicked payload
  | overdue =>
    cases h
    exact .timedOut (hlimit rfl)
  | rendered => cases hearly
  | renderingPanicked => cases hearly

/-- The row of what is found once a failure is rendered. -/
theorem settles_of_rendering (failure : Renderable K) {finding : Finding M K} {ending : Ending M K}
    (h : finding.ending? task.config.timeout = some ending)
    (hlate : finding.isOfRendering) :
    Settles client t task [.returned (.error (.render failure)), finding] ending.outcome
      (task.announcement failure :: ending.acts client t task) := by
  cases finding with
  | rendered result =>
    cases h
    cases result with
    | ok response =>
      cases response with
      | some response => exact .rendered failure response
      | none => exact .renderFailed failure .empty
    | error error => exact .renderFailed failure (.failed error)
  | renderingPanicked payload =>
    cases h
    exact .renderFailed failure (.panicked payload)
  | _ => cases hlate

/-! ## The steps of a turn -/

namespace World

/-- What a turn does with what has come back. -/
inductive Turned (client : Client M E K H) (w : World M E K H) (t : Nat) (task : Task K) :
    Stage K → Control M E K H → Move M E K H → Prop
  | asks {producer : K} {m : Move M E K H} : Asked client w [] t task producer m →
      Turned client w t task .starting (.resume (.future producer)) m
  | parks {wake : Wake} {rest : K} {w' : World M E K H} : Calm w w' →
      w'.tasks = w.tasks.modify t (fun task => { task with state := .parked rest wake }) →
      task.deadline.any (· ≤ w.clock) = false →
      Turned client w t task .polling (.resume (.progress (.waiting wake rest)))
        (.answer w' [] .done)
  | announces (failure : Renderable K) :
      Turned client w t task .polling (.resume (.progress (.done (.error (.render failure)))))
        (.acts w [.turn t (.announcing failure.respond)] task.point [task.announcement failure] .done)
  | renders {code : K} {reply : Reply M K} :
      Turned client w t task (.announcing code) (.resume reply)
        ⟨w, .eval ((client.render code).bind fun result => .ret (.rendered result)),
          [.turn t .rendering]⟩
  | closes {stage : Stage K} {control : Control M E K H} {finding : Finding M K}
      {ending : Ending M K} : task.finds w.clock stage control = some finding →
      finding.ending? task.config.timeout = some ending →
      Turned client w t task stage control (w.close client [] t task ending)
  | concludes {outcome : Outcome} {reply : Reply M K} :
      Turned client w t task (.closing outcome) (.resume reply) (w.conclude [] t outcome)
  /-- No such reply comes from the code that runs at that stage. -/
  | strays {stage : Stage K} {reply : Reply M K} : stage.runsCode → ¬stage.Expects reply →
      Turned client w t task stage (.resume reply) (w.conclude [] t .panicked)
  | escapes {stage : Stage K} {payload : Payload} :
      ¬(stage.isAnswered ∧ task.config.answersPanics) →
      Turned client w t task stage (.unwind payload) (w.conclude [] t .panicked)

theorem park_turned (wake : Wake) (rest : K) :
    Turned client w t task .polling (.resume (.progress (.waiting wake rest)))
      (w.park client [] t task wake rest) := by
  unfold park
  split
  · rename_i hdue
    have hfinds : task.finds w.clock .polling
        (.resume (.progress (.waiting wake rest)) : Control M E K H) = some .overdue := by
      simp only [Task.finds, hdue, if_true]
    exact .closes hfinds rfl
  · rename_i hdue
    refine .parks ?_ ?_ (by simpa using hdue)
    · split
      · exact calm_wake (calm_modifyTask _)
      · exact calm_modifyTask _
    · split
      · exact tasks_wake
      · rfl

theorem resumeTurn_turned (stage : Stage K) (reply : Reply M K) :
    Turned client w t task stage (.resume reply)
      (w.resumeTurn client [] t task stage reply) := by
  cases stage with
  | starting =>
    cases reply with
    | future producer => exact .asks (ask_asked task _)
    | _ => exact .strays rfl id
  | polling =>
    cases reply with
    | progress progress =>
      cases progress with
      | waiting wake rest => exact park_turned wake rest
      | done result =>
        cases result with
        | ok value => exact .closes rfl rfl
        | error failure =>
          cases failure with
          | render failure => exact .announces failure
          | canceled => exact .closes rfl rfl
          | fail cause => exact .closes rfl rfl
    | _ => exact .strays rfl id
  | announcing code => exact .renders
  | rendering =>
    cases reply with
    | rendered result => exact .closes rfl rfl
    | _ => exact .strays rfl id
  | closing outcome => exact .concludes

theorem unwindTurn_turned (stage : Stage K) (payload : Payload) :
    Turned client w t task stage (.unwind payload)
      (w.unwindTurn client [] t task stage payload) := by
  unfold unwindTurn
  cases hset : task.config.answersPanics with
  | true =>
    cases stage with
    | polling => exact .closes rfl rfl
    | rendering => exact .closes rfl rfl
    | _ => exact .escapes (by simp [Stage.isAnswered])
  | false =>
    cases stage with
    | _ => exact .escapes (by simp [hset])

end World
end Exchange
