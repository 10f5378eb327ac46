import Exchange.Machine.Turn

/-!
The steps of a thread. Each step does one thing: a piece of code, the first step of a call, one delivery, one
report. A thread takes no step while it waits for another thread's pass or end, nor once it is over.
-/

namespace Exchange
set_option autoImplicit false

variable {M E K H : Type}

def Entry.act (event : Event M E) : Entry K → Act M E K
  | .observer _ _ code => .present code event
  | .ending ticket notice => .notify ticket notice

/-- Whether an entry stays that has had its turn: an observer says so, a notice never does. -/
def Entry.stays (reply : Reply M K) : Entry K → Bool
  | .observer _ _ _ => match reply with
    | .keep stays => stays
    | _ => false
  | .ending _ _ => false

namespace World

def eval (w : World M E K H) (stack : List (Frame M E K H)) : Code M E K H (Reply M K) → Move M E K H
  | .ret reply => .answer w stack reply
  | .panic payload => ⟨w, .unwind payload, stack⟩
  | .host change next => ⟨{ w with host := change w.host }, .eval (next w.host), stack⟩
  | .call op next => ⟨w, .perform op, .caller next :: stack⟩

def act (client : Client M E K H) (w : World M E K H) (stack : List (Frame M E K H)) :
    Act M E K → Move M E K H
  | .report sink kind label reason =>
    let (diagnostic, w) := w.diagnose kind label reason
    ⟨w, .deliver sink diagnostic, stack⟩
  | .present code event =>
    ⟨w, .eval ((client.observer code event).bind fun stays => .ret (.keep stays)), stack⟩
  | .notify _ (.cancel t) | .cancel t => .answer (w.cancel t) stack .done
  | .notify _ (.run code) | .run code =>
    ⟨w, .eval ((client.routine code).bind fun _ => .ret .done), stack⟩
  | .call op => ⟨w, .perform op, stack⟩
  | .announce producer point => .answer { w with host := client.bound producer point w.host } stack .done
  | .spawn t =>
    let w := w.modifyTask t fun task =>
      match task.state with
      | .unborn producer => { task with state := .fresh producer }
      | _ => task
    .answer { w with ready := w.ready ++ [t] } stack .done

def deliver (client : Client M E K H) (w : World M E K H) (stack : List (Frame M E K H))
    (sink : Sink K) (diagnostic : Diagnostic) : Move M E K H :=
  match sink with
  | .client _ code =>
    ⟨w, .eval ((client.sink code diagnostic).bind fun _ => .ret .done), .receiving :: stack⟩
  | .recorder =>
    .answer { w with host := client.record (diagnostic.record (w.producerOf stack)) w.host } stack .done
  | .set members => ⟨w, .resume .done, .fanOut members none 0 diagnostic :: stack⟩

/-- The next thing to do at a point that is being served: the entry whose turn it is, then the commit of the
pass; after the end the entries still to be told, then the reports of the events that came too late. -/
def serve (w : World M E K H) (thread : Nat) (stack : List (Frame M E K H)) (p : Nat)
    (point : Point M E K) : Move M E K H :=
  let serving : List (Frame M E K H) := .serving p :: stack
  let turn (event : Event M E) (entry : Entry K) : Move M E K H :=
    if entry.heeds event then ⟨w, .act (entry.act event), .delivering p :: serving⟩
    else .answer (w.setPhase p (point.phase.advance true)) serving .done
  match point.phase with
  | .listening _ => .answer w stack .done
  | .dispatching _ pass =>
    match pass.waiting with
    | entry :: _ => turn pass.event entry
    | [] =>
      let phase := pass.commit thread
      .answer (w.setPhase p phase) (if phase.isListening then stack else serving) .done
  | .ended farewell =>
    match farewell.waiting, farewell.late with
    | entry :: _, _ => turn farewell.event entry
    | [], event :: _ =>
      ⟨w.setPhase p point.phase.dropLate, .act (point.report p .lateEvent (some event.lateName)), serving⟩
    | [], [] => .answer w stack .done

def resume (client : Client M E K H) (w : World M E K H) (thread : Nat) (stack : List (Frame M E K H))
    (reply : Reply M K) : Frame M E K H → Move M E K H
  | .caller next => ⟨w, .eval (next reply), stack⟩
  | .acts _ [] answer => .answer w stack answer
  | .acts p (first :: todo) answer => ⟨w, .act first, .acts p todo answer :: stack⟩
  | .serving p =>
    match w.points[p]? with
    | some point => w.serve thread stack p point
    | none => .answer w stack .done
  | .delivering p =>
    match w.points[p]? with
    | some point =>
      let stays := point.phase.turn?.any (Entry.stays reply)
      .answer (w.setPhase p (point.phase.advance stays)) stack .done
    | none => .answer w stack .done
  | .fanOut members skip next diagnostic =>
    match members[next]? with
    | none => .answer w stack .done
    | some sink =>
      let rest := Frame.fanOut members skip (next + 1) diagnostic :: stack
      if skip = some next then .answer w rest .done else ⟨w, .deliver sink diagnostic, rest⟩
  | .turn t stage =>
    match w.tasks[t]? with
    | some task => w.resumeTurn client stack t task stage reply
    | none => .answer w stack .done
  | .receiving => .answer w stack .done
  | .catching => .answer w stack (.caught none)

/-- A panic reaches a frame. A delivery drops the entry and reports; a set reports to its other members,
unless the diagnostic is such a report itself; most frames are left behind. -/
def unwind (client : Client M E K H) (w : World M E K H) (stack : List (Frame M E K H))
    (payload : Payload) : Frame M E K H → Move M E K H
  | .delivering p =>
    match w.points[p]? with
    | some point =>
      ⟨w.setPhase p (point.phase.advance false),
        .act (point.report p .observerPanicked (some payload.info)), stack⟩
    | none => .answer w stack .done
  | .fanOut members skip next diagnostic =>
    let rest := Frame.fanOut members skip next diagnostic :: stack
    if diagnostic.kind = .sinkPanicked then .answer w rest .done
    else
      let culprit := next - 1
      let name := (members[culprit]?.map Sink.name).getD ""
      let (report, w) := w.diagnose .sinkPanicked (some name) (some payload.info)
      .answer w (.fanOut members (some culprit) 0 report :: rest) .done
  | .turn t stage =>
    match w.tasks[t]? with
    | some task => w.unwindTurn client stack t task stage payload
    | none => .answer w stack .done
  | .catching => .answer w stack (.caught (some payload))
  | _ => ⟨w, .unwind payload, stack⟩

/-- The step of a thread with that control and stack; none where it waits or is over. -/
def move (client : Client M E K H) (w : World M E K H) (thread : Nat) (stack : List (Frame M E K H)) :
    Control M E K H → Option (Move M E K H)
  | .eval code => some (w.eval stack code)
  | .perform op => w.perform client thread stack op
  | .act act => some (w.act client stack act)
  | .deliver sink diagnostic => some (w.deliver client stack sink diagnostic)
  | .resume reply =>
    match stack with
    | frame :: rest => some (w.resume client thread rest reply frame)
    | [] => none
  | .unwind payload =>
    match stack with
    | frame :: rest => some (w.unwind client rest payload frame)
    | [] => none
  | .await child =>
    match w.threads.find? (·.id = child) with
    | none => some (.answer w stack .done)
    | some other =>
      if other.isOver then
        let threads := w.threads.filter (·.id ≠ child)
        match other.control with
        | .unwind payload => some ⟨{ w with threads }, .unwind payload, stack⟩
        | _ => some (.answer { w with threads } stack .done)
      else none

/-- One step of a thread; none where it waits or is over. -/
def step (client : Client M E K H) (thread : Nat) (w : World M E K H) : Option (World M E K H) := do
  let current ← w.threads.find? (·.id = thread)
  let move ← w.move client thread current.stack current.control
  let threads := move.world.threads.map fun other =>
    if other.id = thread then { other with control := move.control, stack := move.stack } else other
  return { move.world with threads }

end World
end Exchange
