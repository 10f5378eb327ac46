import Mathlib.Data.List.Forall2
import Exchange.Proofs.Elsewhere
import Exchange.Proofs.Panics
import Exchange.Proofs.Recast

/-!
Calls put off in a pass, in one mixture or another. A commit sorts them by kind: removals concern those who
have had their turn, notices join them, pushes queue up, and each kind keeps its order. Until the commit
nothing that an exchange does tells one mixture from another, and from then on there is only one exchange.
-/

namespace Exchange
set_option autoImplicit false

variable {M E K H : Type}

/-! ## Calls of three kinds -/

/-- The same pushes and the same notices, each in their order, and the same registrations taken back, in
whatever order and however often. -/
structure Shuffle (calls calls' : List (Postponed M E K)) : Prop where
  pushes : calls'.filterMap Postponed.pushed? = calls.filterMap Postponed.pushed?
  notices : calls'.filterMap Postponed.joined? = calls.filterMap Postponed.joined?
  removals : ∀ id, .unregister id ∈ calls' ↔ .unregister id ∈ calls

theorem Postponed.mem_removed_iff {calls : List (Postponed M E K)} {id : Nat} :
    id ∈ calls.filterMap Postponed.removed? ↔ .unregister id ∈ calls := by
  rw [List.mem_filterMap]
  constructor
  · rintro ⟨call, hmem, hid⟩
    cases call <;> cases hid
    exact hmem
  · intro hmem
    exact ⟨_, hmem, rfl⟩

namespace Shuffle
variable {calls calls' : List (Postponed M E K)}

/-- The same call, put off after both. -/
theorem snoc (h : Shuffle calls calls') (call : Postponed M E K) :
    Shuffle (calls ++ [call]) (calls' ++ [call]) := by
  refine ⟨?_, ?_, ?_⟩
  · rw [List.filterMap_append, List.filterMap_append, h.pushes]
  · rw [List.filterMap_append, List.filterMap_append, h.notices]
  · intro id
    rw [List.mem_append, List.mem_append, h.removals]

theorem eq_nil (h : Shuffle [] calls) : calls = [] := by
  apply List.eq_nil_iff_forall_not_mem.mpr
  intro call hmem
  cases call with
  | unregister id => exact List.not_mem_nil ((h.removals id).mp hmem)
  | push event =>
    have hpushed : event ∈ calls.filterMap Postponed.pushed? := List.mem_filterMap.mpr ⟨_, hmem, rfl⟩
    rw [h.pushes] at hpushed
    exact List.not_mem_nil hpushed
  | ending ticket notice =>
    have hjoined : .ending ticket notice ∈ calls.filterMap Postponed.joined? :=
      List.mem_filterMap.mpr ⟨_, hmem, rfl⟩
    rw [h.notices] at hjoined
    exact List.not_mem_nil hjoined

theorem isAmong_eq (h : Shuffle calls calls') (entry : Entry K) :
    entry.isAmong (calls'.filterMap Postponed.removed?) =
      entry.isAmong (calls.filterMap Postponed.removed?) := by
  cases entry with
  | observer id interest code =>
    simp only [Entry.isAmong, decide_eq_decide, Postponed.mem_removed_iff, h.removals]
  | ending => rfl

end Shuffle

namespace Pass
variable {pass : Pass M E K} {calls : List (Postponed M E K)}

theorem survivors_shuffle (h : Shuffle pass.postponed calls) :
    { pass with postponed := calls }.survivors = pass.survivors := by
  simp only [survivors, removals, newcomers, h.isAmong_eq, h.notices]

theorem upcoming_shuffle (h : Shuffle pass.postponed calls) :
    { pass with postponed := calls }.upcoming = pass.upcoming := by
  simp only [upcoming, h.pushes]

theorem commit_shuffle (h : Shuffle pass.postponed calls) (owner : Nat) :
    { pass with postponed := calls }.commit owner = pass.commit owner := by
  rw [commit_eq, commit_eq, survivors_shuffle h, upcoming_shuffle h]

/-- A pass ends its point with a final event, or when nobody who stays holds the point open. -/
theorem isEnded_commit (pass : Pass M E K) (owner : Nat) :
    (pass.commit owner).isEnded = (pass.event.isLast || !heldOpen pass.survivors) := by
  rw [commit_eq]
  split
  · rename_i hlast
    simp [hlast, Phase.isEnded]
  · rename_i hlast
    split
    · rename_i hfree
      simp [hfree, Phase.isEnded]
    · rename_i hheld
      split <;> simp_all [Phase.isEnded]

end Pass

/-! ## Points -/

/-- The same phase, but for the calls put off in its pass, which may be shuffled if `mixed` says so. -/
inductive Phase.Shuffled (mixed : Prop) : Phase M E K → Phase M E K → Prop
  | same (phase : Phase M E K) : Shuffled mixed phase phase
  | pass (owner : Nat) {pass : Pass M E K} {calls : List (Postponed M E K)} : mixed →
      Shuffle pass.postponed calls →
      Shuffled mixed (.dispatching owner pass) (.dispatching owner { pass with postponed := calls })

namespace Phase.Shuffled
variable {mixed : Prop} {phase phase' : Phase M E K} (h : phase.Shuffled mixed phase')
include h

theorem access (t : Nat) : phase'.access t = phase.access t := by cases h <;> rfl

theorem isEnded : phase'.isEnded = phase.isEnded := by cases h <;> rfl

theorem hasInterest : phase'.hasInterest = phase.hasInterest := by cases h <;> rfl

theorem label : phase'.label = phase.label := by cases h <;> rfl

theorem observers? : phase'.observers? = phase.observers? := by cases h <;> rfl

theorem turn? : phase'.turn? = phase.turn? := by cases h <;> rfl

theorem due : phase'.due = phase.due := by cases h <;> rfl

theorem postpone (call : Postponed M E K) : (phase.postpone call).Shuffled mixed (phase'.postpone call) := by
  cases h with
  | same => exact .same _
  | pass owner hmixed hcalls => exact .pass owner hmixed (hcalls.snoc call)

theorem advance (stays : Bool) : (phase.advance stays).Shuffled mixed (phase'.advance stays) := by
  cases h with
  | same => exact .same _
  | @pass owner pass calls hmixed hcalls =>
    obtain ⟨event, waiting, kept, postponed, queue⟩ := pass
    cases waiting <;> exact .pass owner hmixed hcalls

theorem join (entry : Entry K) : (phase.join entry).Shuffled mixed (phase'.join entry) := by
  cases h with
  | same => exact .same _
  | pass owner hmixed hcalls => exact .pass owner hmixed hcalls

theorem openPass (t : Nat) (event : Event M E) :
    (phase.openPass t event).Shuffled mixed (phase'.openPass t event) := by
  cases h with
  | same => exact .same _
  | pass owner hmixed hcalls => exact .pass owner hmixed hcalls

theorem remove (id : Nat) : (phase.remove id).Shuffled mixed (phase'.remove id) := by
  cases h with
  | same => exact .same _
  | pass owner hmixed hcalls => exact .pass owner hmixed hcalls

/-- Where nothing is put off nothing can be shuffled. -/
theorem eq_of_nothing
    (hnothing : mixed → ∀ owner pass, phase = .dispatching owner pass → pass.postponed = []) :
    phase' = phase := by
  cases h with
  | same => rfl
  | @pass owner pass calls hmixed hcalls =>
    have hnone := hnothing hmixed owner pass rfl
    rw [hnone] at hcalls
    rw [hcalls.eq_nil, ← hnone]

end Phase.Shuffled

/-- The same points, but for the mixture of the calls put off at point `p`. -/
structure ShuffledAt (p : Nat) (points points' : List (Point M E K)) : Prop where
  length : points'.length = points.length
  phases : ∀ (q : Nat) (point : Point M E K), points[q]? = some point →
    ∃ phase, point.phase.Shuffled (q = p) phase ∧ points'[q]? = some { point with phase }

namespace ShuffledAt
variable {p q : Nat} {points points' : List (Point M E K)} {point : Point M E K}

theorem refl (p : Nat) (points : List (Point M E K)) : ShuffledAt p points points :=
  ⟨rfl, fun _ point hq => ⟨point.phase, .same _, hq⟩⟩

variable (h : ShuffledAt p points points')
include h

theorem getElem?_none (hq : points[q]? = none) : points'[q]? = none := by
  rw [List.getElem?_eq_none_iff] at hq ⊢
  rw [h.length]
  exact hq

theorem modify {change change' : Point M E K → Point M E K}
    (hchange : ∀ point phase, point.phase.Shuffled (q = p) phase →
      ∃ phase', (change point).phase.Shuffled (q = p) phase' ∧
        change' { point with phase } = { change point with phase := phase' }) :
    ShuffledAt p (points.modify q change) (points'.modify q change') := by
  refine ⟨by simp [h.length], ?_⟩
  intro r point hr
  rw [List.getElem?_modify] at hr
  obtain ⟨before, hbefore, rfl⟩ := Option.map_eq_some_iff.mp hr
  obtain ⟨phase, hphase, hr'⟩ := h.phases r before hbefore
  rw [List.getElem?_modify, hr']
  by_cases hrq : q = r
  · subst hrq
    obtain ⟨phase', hphase', heq⟩ := hchange before phase hphase
    exact ⟨phase', by simpa using hphase', by simp [heq]⟩
  · exact ⟨phase, by simpa [hrq] using hphase, by simp [hrq]⟩

theorem set {new : Point M E K} {phase : Phase M E K} (hphase : new.phase.Shuffled (q = p) phase) :
    ShuffledAt p (points.set q new) (points'.set q { new with phase }) := by
  rw [List.set_eq_modify, List.set_eq_modify]
  exact h.modify fun _ _ _ => ⟨phase, hphase, rfl⟩

theorem snoc (new : Point M E K) : ShuffledAt p (points ++ [new]) (points' ++ [new]) := by
  refine ⟨by simp [h.length], ?_⟩
  intro q point hq
  rw [List.getElem?_append] at hq ⊢
  rw [h.length]
  split at hq
  · rename_i hlt
    rw [if_pos hlt]
    exact h.phases q point hq
  · rename_i hge
    rw [if_neg hge]
    exact ⟨point.phase, .same _, hq⟩

theorem eq_of_nothing (hnothing : ∀ point owner pass, points[p]? = some point →
    point.phase = .dispatching owner pass → pass.postponed = []) : points' = points := by
  apply List.ext_getElem?
  intro q
  cases hq : points[q]? with
  | none => exact h.getElem?_none hq
  | some point =>
    obtain ⟨phase, hphase, hq'⟩ := h.phases q point hq
    have hsame : phase = point.phase := by
      apply hphase.eq_of_nothing
      rintro rfl owner pass
      exact hnothing point owner pass hq
    rw [hq', hsame]

end ShuffledAt

/-! ## Exchanges -/

/-- The exchange with these points for its own. -/
def World.pointed (points : List (Point M E K)) (w : World M E K H) : World M E K H := { w with points }

def Move.pointed (points : List (Point M E K)) (m : Move M E K H) : Move M E K H :=
  ⟨m.world.pointed points, m.control, m.stack⟩

/-- The same exchange, but for the mixture of the calls put off at point `p`. -/
structure World.Shuffled (p : Nat) (w v : World M E K H) : Prop where
  points : ShuffledAt p w.points v.points
  rest : v = w.pointed v.points

/-- The same move in both exchanges. -/
structure Move.Shuffled (p : Nat) (m m' : Move M E K H) : Prop where
  world : m.world.Shuffled p m'.world
  control : m'.control = m.control
  stack : m'.stack = m.stack

section
variable {client : Client M E K H} {w w' v : World M E K H} {p q t : Nat} {m : Move M E K H}
variable {control : Control M E K H} {stack : List (Frame M E K H)} {frame : Frame M E K H}
variable {points : List (Point M E K)} {point : Point M E K} {phase phase' : Phase M E K} {task : Task K}
variable {op : Op M E K} {thread : Thread M E K H}

namespace World

/-! ### What does not look at the points -/

theorem pointed_wake : (w.pointed points).wake t = (w.wake t).pointed points := by
  unfold wake
  change (if w.tasks[t]?.any (·.state.isParked) && !w.ready.contains t then _ else _) = _
  split <;> rfl

theorem pointed_cancel : (w.pointed points).cancel t = (w.cancel t).pointed points := by
  have htask : (w.pointed points).tasks[t]? = w.tasks[t]? := rfl
  simp only [cancel, htask]
  split
  · split
    · rfl
    · exact pointed_wake (w := w.modifyTask t _)
  · rfl

theorem pointed_ask {producer : K} : (w.pointed points).ask client stack t task producer =
    (w.ask client stack t task producer).pointed points := by
  unfold ask
  split <;> rfl

theorem pointed_park {wake : Wake} {rest : K} :
    (w.pointed points).park client stack t task wake rest =
      (w.park client stack t task wake rest).pointed points := by
  unfold park
  change (if task.deadline.any (· ≤ w.clock) then _ else _) = _
  split
  · rfl
  · dsimp only
    split
    · exact congrArg (Move.answer · stack .done) (pointed_wake (w := w.modifyTask t _))
    · rfl

theorem pointed_resumeTurn {stage : Stage K} {reply : Reply M K} :
    (w.pointed points).resumeTurn client stack t task stage reply =
      (w.resumeTurn client stack t task stage reply).pointed points := by
  unfold resumeTurn
  split
  · exact pointed_ask
  · exact pointed_park
  all_goals rfl

theorem pointed_unwindTurn {stage : Stage K} {payload : Payload} :
    (w.pointed points).unwindTurn client stack t task stage payload =
      (w.unwindTurn client stack t task stage payload).pointed points := by
  unfold unwindTurn
  split <;> rfl

theorem pointed_beginTurn : (w.pointed points).beginTurn client stack t =
    (w.beginTurn client stack t).pointed points := by
  have htask : (w.pointed points).tasks[t]? = w.tasks[t]? := rfl
  simp only [beginTurn, htask]
  split
  · rfl
  · split
    · rfl
    · exact pointed_ask (w := w.modifyTask t _)
    · rfl

theorem pointed_advance (time : Nat) :
    (w.pointed points).advance time = (w.advance time).pointed points := by
  have wakes (tasks : List Nat) (v : World M E K H) :
      tasks.foldl (fun w t => w.wake t) (v.pointed points) =
        (tasks.foldl (fun w t => w.wake t) v).pointed points := by
    induction tasks generalizing v with
    | nil => rfl
    | cons t tasks ih => rw [List.foldl_cons, List.foldl_cons, pointed_wake, ih]
  exact wakes _ { w with clock := max w.clock time }

theorem pointed_act (act : Act M E K) :
    (w.pointed points).act client stack act = (w.act client stack act).pointed points := by
  cases act with
  | cancel t' => exact congrArg (Move.answer · stack .done) pointed_cancel
  | notify ticket notice =>
    cases notice with
    | cancel t' => exact congrArg (Move.answer · stack .done) pointed_cancel
    | run code => rfl
  | _ => rfl

theorem pointed_resume {reply : Reply M K} (hf : ∀ q, frame.attends q = false) :
    (w.pointed points).resume client t stack reply frame =
      (w.resume client t stack reply frame).pointed points := by
  cases frame with
  | acts q todo answer => cases todo <;> rfl
  | serving q => simpa [Frame.attends] using hf q
  | delivering q => simpa [Frame.attends] using hf q
  | fanOut members skip next diagnostic =>
    simp only [resume]
    split
    · rfl
    · split <;> rfl
  | turn t' stage =>
    have htask : (w.pointed points).tasks[t']? = w.tasks[t']? := rfl
    simp only [resume, htask]
    split
    · exact pointed_resumeTurn
    · rfl
  | _ => rfl

theorem pointed_unwind {payload : Payload} (hf : ∀ q, frame.attends q = false) :
    (w.pointed points).unwind client stack payload frame =
      (w.unwind client stack payload frame).pointed points := by
  cases frame with
  | delivering q => simpa [Frame.attends] using hf q
  | fanOut members skip next diagnostic =>
    simp only [unwind]
    split <;> rfl
  | turn t' stage =>
    have htask : (w.pointed points).tasks[t']? = w.tasks[t']? := rfl
    simp only [unwind, htask]
    split
    · exact pointed_unwindTurn
    · rfl
  | _ => rfl

theorem pointed_await {child : Nat} : (w.pointed points).move client t stack (.await child) =
    (w.move client t stack (.await child)).map (Move.pointed points) := by
  have hfind : (w.pointed points).threads.find? (·.id = child) = w.threads.find? (·.id = child) := rfl
  simp only [move, hfind]
  split
  · rfl
  · split
    · split <;> rfl
    · rfl

/-- A step that passes all points by is the same whatever the points are. -/
theorem pointed_move (h : ∀ q, Past q control stack) :
    (w.pointed points).move client t stack control =
      (w.move client t stack control).map (Move.pointed points) := by
  cases control with
  | eval code => cases code <;> rfl
  | perform op => exact absurd rfl ((h 0).1 op)
  | act act => exact congrArg some (pointed_act act)
  | deliver sink diagnostic => cases sink <;> rfl
  | resume reply =>
    cases stack with
    | nil => rfl
    | cons frame stack => exact congrArg some (pointed_resume fun q => (h q).2 trivial frame rfl)
  | unwind payload =>
    cases stack with
    | nil => rfl
    | cons frame stack => exact congrArg some (pointed_unwind fun q => (h q).2 trivial frame rfl)
  | await child => exact pointed_await

/-! ### Calls -/

section
variable (h : ShuffledAt p w.points points)
include h

theorem shuffled_answer (reply : Reply M K) :
    (Move.answer w stack reply).Shuffled p (.answer (w.pointed points) stack reply) :=
  ⟨⟨h, rfl⟩, rfl, rfl⟩

theorem shuffled_setPhase (hphase : phase.Shuffled (q = p) phase') :
    (w.setPhase q phase).Shuffled p ((w.pointed points).setPhase q phase') :=
  ⟨h.modify fun _ _ _ => ⟨phase', hphase, rfl⟩, rfl⟩

theorem isAlive_pointed : (w.pointed points).isAlive q = w.isAlive q := by
  have hretained : points[q]?.any (·.retained) = w.points[q]?.any (·.retained) := by
    cases hq : w.points[q]? with
    | none => rw [h.getElem?_none hq]
    | some point =>
      obtain ⟨phase, -, hq'⟩ := h.phases q point hq
      rw [hq']
      rfl
  simp only [isAlive]
  rw [← hretained]
  rfl

section
variable (hphase : point.phase.Shuffled (q = p) phase)
include hphase

theorem register_shuffled {interest : Interest} {code : K}
    (hm : w.register t stack q point interest code = some m) :
    ∃ m', (w.pointed points).register t stack q { point with phase } interest code = some m' ∧
      m.Shuffled p m' := by
  simp only [register] at hm ⊢
  rw [hphase.access]
  split at hm
  · cases hm
  · cases hm
    exact ⟨_, rfl, ⟨h, rfl⟩, rfl, rfl⟩
  · rw [hphase.isEnded]
    split at hm <;> cases hm
    · rename_i hended
      rw [if_pos hended]
      exact ⟨_, rfl, ⟨h, rfl⟩, rfl, rfl⟩
    · rename_i hended
      rw [if_neg hended]
      exact ⟨_, rfl, ⟨h.set (hphase.join _), rfl⟩, rfl, rfl⟩

theorem unregister_shuffled {id : Nat} (hm : w.unregister t stack q point id = some m) :
    ∃ m', (w.pointed points).unregister t stack q { point with phase } id = some m' ∧
      m.Shuffled p m' := by
  have hremove := hphase.remove id
  simp only [unregister] at hm ⊢
  rw [isAlive_pointed h, hphase.access, hphase.isEnded, hremove.isEnded]
  split at hm
  · rename_i hdead
    cases hm
    rw [if_pos hdead]
    exact ⟨_, rfl, shuffled_answer h .done⟩
  · rename_i hlives
    rw [if_neg hlives]
    split at hm
    · cases hm
    · cases hm
      exact ⟨_, rfl, shuffled_setPhase h (hphase.postpone _), rfl, rfl⟩
    · split at hm <;> cases hm
      · rename_i hends
        rw [if_pos hends]
        exact ⟨_, rfl, shuffled_setPhase h hremove, rfl, rfl⟩
      · rename_i hends
        rw [if_neg hends]
        exact ⟨_, rfl, shuffled_setPhase h hremove, rfl, rfl⟩

theorem atEnd_shuffled {notice : Notice K} (hm : w.atEnd t stack q point notice = some m) :
    ∃ m', (w.pointed points).atEnd t stack q { point with phase } notice = some m' ∧
      m.Shuffled p m' := by
  have numbered {phase phase' : Phase M E K} (hphase : phase.Shuffled (q = p) phase') :
      ({ w with points := w.points.set q { point with phase, nextTicket := point.nextTicket + 1 } } :
        World M E K H).Shuffled p { w with
          points := points.set q { point with phase := phase', nextTicket := point.nextTicket + 1 } } :=
    ⟨h.set hphase, rfl⟩
  simp only [atEnd] at hm ⊢
  rw [hphase.access, hphase.isEnded, hphase.hasInterest]
  split at hm
  · cases hm
  · cases hm
    exact ⟨_, rfl, numbered (hphase.postpone _), rfl, rfl⟩
  · split at hm
    · rename_i hended
      cases hm
      rw [if_pos hended]
      exact ⟨_, rfl, numbered hphase, rfl, rfl⟩
    · rename_i hended
      rw [if_neg hended]
      split at hm <;> cases hm
      · rename_i hinterest
        rw [if_pos hinterest]
        exact ⟨_, rfl, numbered (hphase.join _), rfl, rfl⟩
      · rename_i hinterest
        rw [if_neg hinterest]
        exact ⟨_, rfl, numbered hphase, rfl, rfl⟩

theorem push_shuffled {event : Event M E} (hm : w.push t stack q point event = some m) :
    ∃ m', (w.pointed points).push t stack q { point with phase } event = some m' ∧
      m.Shuffled p m' := by
  simp only [push] at hm ⊢
  rw [hphase.access, hphase.isEnded]
  split at hm
  · cases hm
  · cases hm
    exact ⟨_, rfl, shuffled_setPhase h (hphase.postpone _), rfl, rfl⟩
  · split at hm <;> cases hm
    · rename_i hended
      rw [if_pos hended]
      exact ⟨_, rfl, ⟨h, rfl⟩, rfl, rfl⟩
    · rename_i hended
      rw [if_neg hended]
      exact ⟨_, rfl, shuffled_setPhase h (hphase.openPass t event), rfl, rfl⟩

theorem poke_shuffled :
    (w.poke stack q point).Shuffled p ((w.pointed points).poke stack q { point with phase }) := by
  simp only [poke]
  rw [hphase.isEnded]
  split
  · exact shuffled_answer h .done
  · split <;> exact ⟨⟨h, rfl⟩, rfl, rfl⟩

end

/-- What is done at a point that is there; if there is none it is answered at once. -/
theorem at_shuffled {act act' : Point M E K → Move M E K H}
    (hact : ∀ point phase, point.phase.Shuffled (q = p) phase →
      (act point).Shuffled p (act' { point with phase })) :
    (match w.points[q]? with
      | some point => act point
      | none => .answer w stack .done).Shuffled p
    (match points[q]? with
      | some point => act' point
      | none => .answer (w.pointed points) stack .done) := by
  cases hq : w.points[q]? with
  | none =>
    rw [h.getElem?_none hq]
    exact shuffled_answer h .done
  | some point =>
    obtain ⟨phase, hphase, hq'⟩ := h.phases q point hq
    rw [hq']
    exact hact point phase hphase

/-- The same of a call, which may have to wait. -/
theorem on_shuffled {call call' : Point M E K → Option (Move M E K H)}
    (hcall : ∀ point phase, point.phase.Shuffled (q = p) phase → ∀ m, call point = some m →
      ∃ m', call' { point with phase } = some m' ∧ m.Shuffled p m')
    (hm : (match w.points[q]? with
      | some point => call point
      | none => some (.answer w stack .done)) = some m) :
    ∃ m', (match points[q]? with
      | some point => call' point
      | none => some (.answer (w.pointed points) stack .done)) = some m' ∧ m.Shuffled p m' := by
  cases hq : w.points[q]? with
  | none =>
    rw [hq] at hm
    rw [h.getElem?_none hq]
    cases hm
    exact ⟨_, rfl, shuffled_answer h .done⟩
  | some point =>
    obtain ⟨phase, hphase, hq'⟩ := h.phases q point hq
    rw [hq] at hm
    rw [hq']
    exact hcall point phase hphase m hm

theorem perform_shuffled (hm : w.perform client t stack op = some m) :
    ∃ m', (w.pointed points).perform client t stack op = some m' ∧ m.Shuffled p m' := by
  cases op with
  | create request sink =>
    cases hm
    refine ⟨_, rfl, ⟨h.snoc _, rfl⟩, ?_, rfl⟩
    exact congrArg (fun number => Control.resume (.point number)) h.length
  | release q =>
    cases hm
    exact ⟨_, rfl, ⟨h.modify fun _ phase hphase => ⟨phase, hphase, rfl⟩, rfl⟩, rfl, rfl⟩
  | answerPoke q code =>
    cases hm
    exact ⟨_, rfl, ⟨h.modify fun _ phase hphase => ⟨phase, hphase, rfl⟩, rfl⟩, rfl, rfl⟩
  | inspect q =>
    refine on_shuffled h ?_ hm
    intro point phase hphase m hm
    cases hm
    refine ⟨_, rfl, ⟨h, rfl⟩, ?_, rfl⟩
    simp only [Move.answer, Point.view, hphase.isEnded, hphase.hasInterest, hphase.label,
      hphase.observers?]
  | register q interest code =>
    exact on_shuffled h (fun _ _ hphase _ hm => register_shuffled h hphase hm) hm
  | unregister handle =>
    cases hpoint : handle.point with
    | none =>
      simp only [perform, hpoint] at hm ⊢
      cases hm
      exact ⟨_, rfl, shuffled_answer h .done⟩
    | some q =>
      simp only [perform, hpoint] at hm ⊢
      exact on_shuffled h (fun _ _ hphase _ hm => unregister_shuffled h hphase hm) hm
  | atEnd q notice => exact on_shuffled h (fun _ _ hphase _ hm => atEnd_shuffled h hphase hm) hm
  | push q event => exact on_shuffled h (fun _ _ hphase _ hm => push_shuffled h hphase hm) hm
  | poke q =>
    refine on_shuffled h ?_ hm
    intro point phase hphase m hm
    cases hm
    exact ⟨_, rfl, poke_shuffled h hphase⟩
  | emit q kind label reason =>
    refine on_shuffled h ?_ hm
    intro point phase hphase m hm
    cases hm
    exact ⟨_, rfl, ⟨h, rfl⟩, rfl, rfl⟩
  | bind q name producer config sink =>
    refine on_shuffled h ?_ hm
    intro point phase hphase m hm
    cases hm
    exact ⟨_, rfl, ⟨h, rfl⟩, rfl, rfl⟩
  | cancel t' =>
    cases hm
    refine ⟨_, rfl, ⟨?_, ?_⟩, rfl, rfl⟩
    · rw [pointed_cancel]
      exact (cancel_points t').symm ▸ h
    · rw [pointed_cancel]
      rfl
  | _ =>
    cases hm
    exact ⟨_, rfl, ⟨h, rfl⟩, rfl, rfl⟩

/-! ### All steps -/

omit h in
/-- When all have had their turns the pass is committed. -/
theorem serve_committing {owner : Nat} (pass : Pass M E K)
    (hphase : point.phase = .dispatching owner pass) (hwaiting : pass.waiting = []) : w.serve t stack q point =
      .answer (w.setPhase q (pass.commit t))
        (if (pass.commit t).isListening then stack else .serving q :: stack) .done := by
  simp only [serve, hphase, hwaiting]

theorem serve_shuffled (hphase : point.phase.Shuffled (q = p) phase) :
    (w.serve t stack q point).Shuffled p ((w.pointed points).serve t stack q { point with phase }) := by
  cases hdue : point.phase.due with
  | some turn =>
    obtain ⟨entry, event⟩ := turn
    rw [serve_of_due hdue, serve_of_due (hphase.due.trans hdue)]
    unfold offer
    split
    · exact ⟨⟨h, rfl⟩, rfl, rfl⟩
    · exact ⟨shuffled_setPhase h (hphase.advance true), rfl, rfl⟩
  | none =>
    -- The pass has had all its turns: here the calls are read, and what they lead to is the same phase.
    have same (phase : Phase M E K) := shuffled_setPhase h (.same phase : phase.Shuffled (q = p) phase)
    obtain ⟨request, sink, before, nextId, nextTicket, pokeHandler, retained⟩ := point
    dsimp only at hphase hdue ⊢
    cases hphase with
    | @pass owner pass calls hmixed hcalls =>
      have hwaiting : pass.waiting = [] := by simpa [Phase.due] using hdue
      rw [serve_committing pass rfl hwaiting, serve_committing { pass with postponed := calls } rfl hwaiting,
        Pass.commit_shuffle hcalls]
      exact ⟨same _, rfl, rfl⟩
    | same =>
      cases phase with
      | listening entries => exact shuffled_answer h .done
      | dispatching owner pass =>
        have hwaiting : pass.waiting = [] := by simpa [Phase.due] using hdue
        rw [serve_committing pass rfl hwaiting, serve_committing pass rfl hwaiting]
        exact ⟨same _, rfl, rfl⟩
      | ended farewell =>
        have hwaiting : farewell.waiting = [] := by simpa [Phase.due] using hdue
        simp only [serve, hwaiting]
        cases farewell.late with
        | nil => exact shuffled_answer h .done
        | cons dropped late => exact ⟨same _, rfl, rfl⟩

theorem serving_shuffled (reply : Reply M K) :
    (w.resume client t stack reply (.serving q)).Shuffled p
      ((w.pointed points).resume client t stack reply (.serving q)) :=
  at_shuffled h fun _ _ hphase => serve_shuffled h hphase

theorem delivering_shuffled (reply : Reply M K) :
    (w.resume client t stack reply (.delivering q)).Shuffled p
      ((w.pointed points).resume client t stack reply (.delivering q)) := by
  refine at_shuffled h ?_
  intro point phase hphase
  dsimp only
  rw [hphase.turn?]
  exact ⟨shuffled_setPhase h (hphase.advance _), rfl, rfl⟩

theorem unwinding_shuffled (payload : Payload) :
    (w.unwind client stack payload (.delivering q)).Shuffled p
      ((w.pointed points).unwind client stack payload (.delivering q)) :=
  at_shuffled h fun _ _ hphase => ⟨shuffled_setPhase h (hphase.advance false), rfl, rfl⟩

/-- Whatever step a thread takes, it takes the same one if the calls put off are shuffled. -/
theorem move_shuffled (hm : w.move client t stack control = some m) :
    ∃ m', (w.pointed points).move client t stack control = some m' ∧ m.Shuffled p m' := by
  -- Only calls and the frames that attend to a point look at points at all.
  have plain (hpast : ∀ q, Past q control stack) :
      ∃ m', (w.pointed points).move client t stack control = some m' ∧ m.Shuffled p m' := by
    have hpoints : m.world.points = w.points := List.ext_getElem? fun q => points_of_past hm (hpast q)
    refine ⟨m.pointed points, ?_, ⟨?_, rfl⟩, rfl, rfl⟩
    · rw [pointed_move hpast, hm, Option.map_some]
    · exact hpoints.symm ▸ h
  have frames (frame : Frame M E K H) (rest : List (Frame M E K H)) (hstack : stack = frame :: rest)
      (hf : ∀ q, frame.attends q = false) (hcall : ∀ op, control ≠ .perform op) :=
    plain fun q => hstack ▸ past_of_frame (hf q) hcall
  cases control with
  | perform op => exact perform_shuffled h hm
  | resume reply =>
    cases stack with
    | nil => cases hm
    | cons frame rest =>
      cases hm
      cases frame with
      | serving q => exact ⟨_, rfl, serving_shuffled h reply⟩
      | delivering q => exact ⟨_, rfl, delivering_shuffled h reply⟩
      | _ => exact frames _ rest rfl (fun _ => rfl) (by simp)
  | unwind payload =>
    cases stack with
    | nil => cases hm
    | cons frame rest =>
      cases hm
      cases frame with
      | delivering q => exact ⟨_, rfl, unwinding_shuffled h payload⟩
      | serving q => exact ⟨_, rfl, ⟨h, rfl⟩, rfl, rfl⟩
      | _ => exact frames _ rest rfl (fun _ => rfl) (by simp)
  | _ => exact plain fun q => ⟨by simp, fun hreturn => hreturn.elim⟩

end

/-! ## Runs -/

theorem Shuffled.refl (w : World M E K H) : w.Shuffled p w := ⟨.refl p w.points, rfl⟩

theorem Shuffled.of_pass {pass : Pass M E K} {calls : List (Postponed M E K)}
    (hphase : w.phase p = .dispatching t pass) (hcalls : Shuffle pass.postponed calls) :
    w.Shuffled p (w.setPhase p (.dispatching t { pass with postponed := calls })) := by
  refine ⟨⟨by simp [setPhase], ?_⟩, rfl⟩
  intro q point hq
  by_cases hqp : q = p
  · subst hqp
    refine ⟨.dispatching t { pass with postponed := calls }, ?_, by simp [setPhase, hq]⟩
    rw [← phase_eq hq, hphase]
    exact .pass t rfl hcalls
  · exact ⟨point.phase, .same _, (getElem?_setPhase_ne (Ne.symm hqp) _).trans hq⟩

theorem Shuffled.eq_pointed (h : w.Shuffled p v) :
    ∃ points, ShuffledAt p w.points points ∧ v = w.pointed points := ⟨_, h.points, h.rest⟩

theorem Shuffled.put (h : w.Shuffled p v) : (w.put t control stack).Shuffled p (v.put t control stack) := by
  obtain ⟨points, hpoints, rfl⟩ := h.eq_pointed
  exact ⟨hpoints, rfl⟩

theorem step_shuffled (h : w.Shuffled p v) (ht : w.thread? t = some thread)
    (hs : w.step client t = some w') :
    ∃ v', v.step client t = some v' ∧ w'.Shuffled p v' := by
  obtain ⟨points, hpoints, rfl⟩ := h.eq_pointed
  obtain ⟨m, hm, -⟩ := move_of_step ht hs
  obtain ⟨m', hm', hsame⟩ := move_shuffled hpoints hm
  cases (step_of_move ht hm).symm.trans hs
  have ht' : (w.pointed points).thread? t = some thread := ht
  refine ⟨_, step_of_move ht' hm', ?_⟩
  rw [hsame.control, hsame.stack]
  exact hsame.world.put

theorem between_shuffled (h : w.Shuffled p v) (hb : Between client w w') :
    ∃ v', Between client v v' ∧ w'.Shuffled p v' := by
  obtain ⟨points, hpoints, rfl⟩ := h.eq_pointed
  cases hb with
  | code code hidle => exact ⟨_, .code code hidle, hpoints, rfl⟩
  | @turn u ready hidle hready =>
    have hturn : Between client (w.pointed points) _ := .turn hidle hready
    have htaken : { w.pointed points with ready } = ({ w with ready } : World M E K H).pointed points := rfl
    rw [htaken, pointed_beginTurn] at hturn
    refine ⟨_, hturn, ?_, rfl⟩
    have hcalm : Calm { w with ready } ({ w with ready }.beginTurn client [] u).world := beginTurn_calm
    exact hcalm.points.symm ▸ hpoints
  | clock time =>
    refine ⟨_, .clock time, ?_⟩
    rw [pointed_advance]
    exact ⟨(calm_advance time).points.symm ▸ hpoints, rfl⟩
  | host change => exact ⟨_, .host change, hpoints, rfl⟩
  | reap => exact ⟨_, .reap, hpoints, rfl⟩

end World

/-- The pass of the point is about to be committed: all its entries have had their turns. -/
def Moment.commits (p : Nat) (m : Moment M E K H) : Bool :=
  match m.thread, m.world.phase p with
  | ⟨_, .resume _, .serving q :: _⟩, .dispatching _ pass => q = p && pass.waiting.isEmpty
  | _, _ => false

theorem Moment.commits_some (h : Moment.commits p ⟨w, thread⟩) :
    ∃ reply below owner pass, thread.control = .resume reply ∧ thread.stack = .serving p :: below ∧
      w.phase p = .dispatching owner pass ∧ pass.waiting = [] := by
  unfold Moment.commits at h
  dsimp only at h
  split at h
  · rename_i id reply q below owner pass hphase
    obtain ⟨rfl, hwaiting⟩ : q = p ∧ pass.waiting = [] := by simpa using h
    exact ⟨reply, below, owner, pass, rfl, rfl, hphase, hwaiting⟩
  · cases h

/-- The same thread is about to take the same step. -/
structure Moment.Shuffled (p : Nat) (m m' : Moment M E K H) : Prop where
  world : m.world.Shuffled p m'.world
  thread : m'.thread = m.thread

theorem World.phase_of_commits (hc : Moment.commits p ⟨w, thread⟩) (ht : w.thread? t = some thread)
    (hs : w.step client t = some w') : ∃ pass : Pass M E K, w'.phase p = pass.commit t := by
  obtain ⟨reply, below, owner, pass, hcontrol, hstack, hphase, hwaiting⟩ := Moment.commits_some hc
  obtain ⟨m, hm, threads, rfl⟩ := World.move_of_step ht hs
  refine ⟨pass, ?_⟩
  change m.world.phase p = pass.commit t
  cases hp : w.points[p]? with
  | none => simp [World.phase, hp] at hphase
  | some point =>
    have hpass : point.phase = .dispatching owner pass := (World.phase_eq hp).symm.trans hphase
    rw [hcontrol, hstack] at hm
    simp only [World.move, World.resume, hp, World.serve_committing pass hpass hwaiting] at hm
    cases hm
    exact World.phase_setPhase hp _

/-- What a commit leaves is a phase in which nothing has been put off, so there is nothing left to shuffle. -/
theorem World.Shuffled.eq_of_commits (h : w'.Shuffled p v) (hc : Moment.commits p ⟨w, thread⟩)
    (ht : w.thread? t = some thread) (hs : w.step client t = some w') : v = w' := by
  obtain ⟨pass, hphase⟩ := World.phase_of_commits hc ht hs
  have hpoints : v.points = w'.points := by
    apply h.points.eq_of_nothing
    intro point owner next hp hnext
    have hcommit : pass.commit t = .dispatching owner next := by
      rw [← hphase, World.phase_eq hp, hnext]
    obtain ⟨-, -, -, event, later, -, rfl⟩ := Pass.commit_dispatching hcommit
    rfl
  rw [h.rest, hpoints]
  rfl

theorem Run.shuffled {trail : List (Moment M E K H)} (run : Run client w trail w') (h : w.Shuffled p v) :
    ∃ trail' v', Run client v trail' v' ∧ List.Forall₂ (Moment.Shuffled p) trail trail' ∧
      w'.Shuffled p v' ∧ ((∃ m ∈ trail, m.commits p) → v' = w') := by
  induction run with
  | refl => exact ⟨[], v, .refl, .nil, h, by simp⟩
  | @step trail u u' t thread _ ht hs ih =>
    obtain ⟨trail', x, run', halike, hshuffled, hsame⟩ := ih
    obtain ⟨x', hs', hshuffled'⟩ := World.step_shuffled hshuffled ht hs
    have ht' : x.thread? t = some thread := by
      rw [hshuffled.rest]
      exact ht
    refine ⟨trail' ++ [⟨x, thread⟩], x', run'.step ht' hs', ?_, hshuffled', ?_⟩
    · exact List.rel_append halike (.cons ⟨hshuffled, rfl⟩ .nil)
    · rintro ⟨m, hm, hcommits⟩
      rcases List.mem_append.mp hm with hold | hnew
      · cases hsame ⟨m, hold, hcommits⟩
        exact Option.some.inj (hs'.symm.trans hs)
      · rw [List.mem_singleton.mp hnew] at hcommits
        exact hshuffled'.eq_of_commits hcommits ht hs
  | @between trail u u' _ hb ih =>
    obtain ⟨trail', x, run', halike, hshuffled, hsame⟩ := ih
    -- Two exchanges that are the same must stay so, whatever the outside does to the one.
    by_cases hcommitted : ∃ m ∈ trail, m.commits p
    · cases hsame hcommitted
      exact ⟨trail', u', run'.between hb, halike, .refl u', fun _ => rfl⟩
    · obtain ⟨x', hb', hshuffled'⟩ := World.between_shuffled hshuffled hb
      exact ⟨trail', x', run'.between hb', halike, hshuffled', fun h => absurd h hcommitted⟩

end

/-- A commit sorts by kind what has been put off in its pass. Those who stay are the entries that were kept, in
their order and less the observers taken back, and after them the notices; the events to come are those that
were waiting and after them those that were pushed. The point ends with a final event, or if nobody who stays
holds it open. So it does not matter how pushes, notices and removals were mixed: a shuffle of them is settled
in the same way and leads to the same phase. Every run is a run with the calls shuffled, too, in which threads
take the same steps one by one, and once the pass has been committed the two exchanges are the same. -/
theorem commits_ignore_shuffles (pass : Pass M E K) :
    pass.settled =
      (pass.kept.filter (fun entry => !entry.isAmong (pass.postponed.filterMap Postponed.removed?)) ++
          pass.postponed.filterMap Postponed.joined?,
        pass.queue ++ pass.postponed.filterMap Postponed.pushed?) ∧
    (∀ t, (pass.commit t).isEnded = (pass.event.isLast || !heldOpen pass.settled.1)) ∧
    ∀ calls, Shuffle pass.postponed calls →
      { pass with postponed := calls }.settled = pass.settled ∧
      (∀ t, { pass with postponed := calls }.commit t = pass.commit t) ∧
      ∀ (client : Client M E K H) w p t trail w', w.phase p = .dispatching t pass →
        Run client w trail w' →
        ∃ trail' v,
          Run client (w.setPhase p (.dispatching t { pass with postponed := calls })) trail' v ∧
          List.Forall₂ (Moment.Shuffled p) trail trail' ∧ w'.Shuffled p v ∧
          ((∃ m ∈ trail, m.commits p) → v = w') := by
  refine ⟨pass.settled_eq, ?_, ?_⟩
  · intro t
    rw [pass.isEnded_commit, pass.settled_eq]
  · intro calls hcalls
    refine ⟨?_, Pass.commit_shuffle hcalls, ?_⟩
    · rw [Pass.settled_eq, Pass.settled_eq, Pass.survivors_shuffle hcalls, Pass.upcoming_shuffle hcalls]
    · intro client w p t trail w' hphase run
      exact run.shuffled (.of_pass hphase hcalls)

/-- A client whose restless observers make three calls from inside a pass, unless its event is final. -/
def restlessClient : Client Unit Unit Bool Unit :=
  { plainClient with
    observer := fun restless event =>
      if restless && !event.isLast then
        (Code.calls [.unregister ⟨some 0, 2⟩, .push 0 (.ofResponse () true), .atEnd 0 (.run false)]).bind
          fun _ => .ret true
      else .ret true }

/-- After 28 steps the pass is about to be committed in which the first observer has taken back the second. -/
theorem commits_ignore_shuffles_restless :
    let before := (World.runCalls restlessClient () [.create "request" .recorder,
      .register 0 .active true, .register 0 .passive false, .push 0 (.ofResponse () false)] 28).2
    let after := (before.trace restlessClient 60).2
    let pass : Pass Unit Unit Bool :=
      { event := .ofResponse () false
        waiting := []
        kept := [.observer 1 .active true, .observer 2 .passive false]
        postponed := [.unregister 2, .push (.ofResponse () true), .ending 0 (.run false)] }
    let shuffled : Pass Unit Unit Bool := { pass with postponed :=
      [.ending 0 (.run false), .unregister 2, .push (.ofResponse () true), .unregister 2] }
    before.phase 0 = .dispatching 0 pass ∧ (after.phase 0).isEnded ∧
      shuffled.settled = ([.observer 1 .active true, .ending 0 (.run false)], [.ofResponse () true]) ∧
      ∃ trail, Run restlessClient (before.setPhase 0 (.dispatching 0 shuffled)) trail after := by
  intro before after pass shuffled
  have hpass : before.phase 0 = .dispatching 0 pass := rfl
  have hshuffle : Shuffle pass.postponed shuffled.postponed :=
    ⟨rfl, rfl, by simp [pass, shuffled]⟩
  have run : Run restlessClient before _ after := World.run_trace restlessClient 60 before
  obtain ⟨hsettled, -, hshuffled⟩ := commits_ignore_shuffles pass
  obtain ⟨hsame, -, hruns⟩ := hshuffled shuffled.postponed hshuffle
  obtain ⟨trail, v, hrun, -, -, hone⟩ := hruns restlessClient before 0 0 _ after hpass run
  have hcommits : ∃ m ∈ (before.trace restlessClient 60).1, m.commits 0 := by decide
  have hended : (after.phase 0).isEnded := by decide
  refine ⟨hpass, hended, ?_, trail, hone hcommits ▸ hrun⟩
  rw [hsame, hsettled]
  rfl

end Exchange
