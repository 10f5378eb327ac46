import Exchange.Machine.Calls

/-!
The turn of a task. Its first turn starts the producer. In every turn cancellation is looked at first; then
the producer is asked once; only if it still waits does the deadline count. A producer that has come to an
end is answered for according to its ending.
-/

namespace Exchange
set_option autoImplicit false

variable {M E K H : Type}

namespace Ending

/-- What a binding does at a producer's end: it cancels a task whose time is up, makes the closing report
and pushes the final response. -/
def acts (client : Client M E K H) (t : Nat) (task : Task K) (ending : Ending M K) : List (Act M E K) :=
  (if ending.outcome = .timedOut then [.cancel t] else []) ++
  (ending.report.toList.map fun report => .report task.sink report.1 (some task.name) report.2) ++
  (ending.response client.internalError client.timeout).toList.map fun response =>
    .call (.push task.point (.ofResponse response true))

end Ending

namespace World

/-- The producer has come to its end. -/
def close (client : Client M E K H) (w : World M E K H) (stack : List (Frame M E K H)) (t : Nat)
    (task : Task K) (ending : Ending M K) : Move M E K H :=
  .acts w (.turn t (.closing ending.outcome) :: stack) task.point (ending.acts client t task) .done

/-- The turn and the task are over. -/
def conclude (w : World M E K H) (stack : List (Frame M E K H)) (t : Nat) (outcome : Outcome) :
    Move M E K H :=
  .answer (w.modifyTask t fun task => { task with state := .over outcome }) stack .done

/-- Asks the producer, unless the task is cancelled. Its time runs from the first time it is asked. -/
def ask (client : Client M E K H) (w : World M E K H) (stack : List (Frame M E K H)) (t : Nat)
    (task : Task K) (producer : K) : Move M E K H :=
  if task.cancelled then w.close client stack t task .canceled
  else
    let deadline := task.deadline <|> task.config.deadline.map fun limit => w.clock + limit.millisUp
    ⟨w.modifyTask t fun task => { task with deadline },
      .eval ((client.poll producer t).bind fun progress => .ret (.progress progress)),
      .turn t .polling :: stack⟩

/-- Begins a turn of a task that is ready. -/
def beginTurn (client : Client M E K H) (w : World M E K H) (stack : List (Frame M E K H)) (t : Nat) :
    Move M E K H :=
  let started := w.modifyTask t fun task => { task with state := .running }
  match w.tasks[t]? with
  | none => .answer w stack .done
  | some task =>
    match task.state with
    | .fresh producer =>
      ⟨started, .eval ((client.start producer t).bind fun code => .ret (.future code)),
        .turn t .starting :: stack⟩
    | .parked producer _ => started.ask client stack t task producer
    | _ => .answer w stack .done

/-- The producer waits: its time may be up; else it is parked, and if it asked for another turn or has been
cancelled during this one it is ready again. -/
def park (client : Client M E K H) (w : World M E K H) (stack : List (Frame M E K H)) (t : Nat)
    (task : Task K) (wake : Wake) (rest : K) : Move M E K H :=
  if task.deadline.any (· ≤ w.clock) then w.close client stack t task (.timedOut task.config.timeout)
  else
    let w := w.modifyTask t fun task => { task with state := .parked rest wake }
    .answer (if wake = .soon || task.cancelled then w.wake t else w) stack .done

/-- A turn goes on with what has come back. -/
def resumeTurn (client : Client M E K H) (w : World M E K H) (stack : List (Frame M E K H)) (t : Nat)
    (task : Task K) (stage : Stage K) (reply : Reply M K) : Move M E K H :=
  match stage, reply with
  | .starting, .future producer => w.ask client stack t task producer
  | .polling, .progress (.waiting wake rest) => w.park client stack t task wake rest
  | .polling, .progress (.done (.ok _)) => w.close client stack t task .completed
  | .polling, .progress (.done (.error .canceled)) => w.close client stack t task .canceled
  | .polling, .progress (.done (.error (.fail cause))) => w.close client stack t task (.failed cause)
  | .polling, .progress (.done (.error (.render failure))) =>
    .acts w (.turn t (.announcing failure.respond) :: stack) task.point
      [.report task.sink .renderableFailure (some task.name) (some failure.message)] .done
  | .announcing code, _ =>
    ⟨w, .eval ((client.render code).bind fun result => .ret (.rendered result)),
      .turn t .rendering :: stack⟩
  | .rendering, .rendered result => w.close client stack t task (.ofRendering result)
  | .closing outcome, _ => w.conclude stack t outcome
  | _, _ => w.conclude stack t .panicked

/-- A panic reaches a turn. The binding answers for the producer's own panics if it is set to. -/
def unwindTurn (client : Client M E K H) (w : World M E K H) (stack : List (Frame M E K H)) (t : Nat)
    (task : Task K) (stage : Stage K) (payload : Payload) : Move M E K H :=
  match stage, task.config.answersPanics with
  | .polling, true => w.close client stack t task (.panicked payload.info)
  | .rendering, true => w.close client stack t task (.renderFailed (.panicked payload.info))
  | _, _ => w.conclude stack t .panicked

end World
end Exchange
