import Exchange.Proofs.Promise

/-!
How points receive calls. The first step of a call changes the standing of a point as the history
says, and leaves no frame that is part of a call serving the point, unless it is this call that
begins to serve it.
-/

namespace Exchange
set_option autoImplicit false

variable {M E K H : Type} {client : Client M E K H} {w w' : World M E K H} {t : Nat}
  {thread : Thread M E K H}
variable {control : Control M E K H} {stack : List (Frame M E K H)}
  {m : Move M E K H}
variable {p : Nat} {v : Service} {point : Point M E K}

namespace Move
variable (reply : Reply M K) (todo : List (Act M E K))

@[simp] theorem answer_control : (answer w stack reply).control = .resume reply := rfl

@[simp] theorem acts_control : (acts w stack p todo reply).control = .resume .done := rfl

@[simp] theorem serve_control : (serve w stack p).control = .resume .done := rfl

end Move

namespace World

/-! ## Standings -/

theorem standing_congr (h : w'.points = w.points) : w'.standing p v = w.standing p v := by
  simp [standing, phase, nextId, nextTicket, h]

theorem standing_of_getElem? (hp : w.points[p]? = some point) :
    w.standing p v = ⟨point.phase, v, point.nextId, point.nextTicket⟩ := by
  simp [standing, phase, nextId, nextTicket, hp]

theorem standing_set_self (hp : w.points[p]? = some point) (new : Point M E K) :
    ({ w with points := w.points.set p new } : World M E K H).standing p v =
      ⟨new.phase, v, new.nextId, new.nextTicket⟩ := by
  have hlt := (List.getElem?_eq_some_iff.mp hp).1
  exact standing_of_getElem? (by simp [hlt])

theorem standing_set_ne {q : Nat} (hne : q ≠ p) (new : Point M E K) :
    ({ w with points := w.points.set q new } : World M E K H).standing p v = w.standing p v := by
  simp [standing, phase, nextId, nextTicket, hne]

theorem standing_setPhase_self (hp : w.points[p]? = some point) (new : Phase M E K) :
    (w.setPhase p new).standing p v = ⟨new, v, point.nextId, point.nextTicket⟩ := by
  have hnew : (w.setPhase p new).points[p]? = some { point with phase := new } := by
    simp [setPhase, hp]
  exact standing_of_getElem? hnew

theorem standing_setPhase_ne {q : Nat} (hne : q ≠ p) (new : Phase M E K) :
    (w.setPhase q new).standing p v = w.standing p v := by
  simp [standing, phase, nextId, nextTicket, setPhase, hne]

theorem standing_modify {q : Nat} {change : Point M E K → Point M E K}
    (h : ∀ point, (change point).phase = point.phase ∧ (change point).nextId = point.nextId ∧
      (change point).nextTicket = point.nextTicket) :
    ({ w with points := w.points.modify q change } : World M E K H).standing p v =
      w.standing p v := by
  by_cases hq : q = p
  · subst hq
    cases hp : w.points[q]? <;>
      simp [standing, phase, nextId, nextTicket, hp, h]
  · simp [standing, phase, nextId, nextTicket, hq]

/-- A point that is yet to be created stands as a new one does. -/
theorem standing_create (request : String) (sink : Sink K) :
    ({ w with points := w.points ++ [{ request, sink }] } : World M E K H).standing p v =
      w.standing p v := by
  rcases Nat.lt_trichotomy p w.points.length with h | rfl | h
  · simp [standing, phase, nextId, nextTicket, List.getElem?_append_left h]
  · simp [standing, phase, nextId, nextTicket]
  · have hnone : (w.points ++ [({ request, sink } : Point M E K)])[p]? = none := by
      rw [List.getElem?_eq_none_iff, List.length_append, List.length_singleton]
      omega
    simp [standing, phase, nextId, nextTicket, hnone, Nat.le_of_lt h]

end World

/-! ## Calls -/

/-- What the first step of a call of thread `t` is for a point: it may leave frames of other kinds,
or it begins to serve the point. -/
inductive Performs (w : World M E K H) (t p : Nat) (v : Service) (stack : List (Frame M E K H))
    (happenings : List (Happening M E K)) (m : Move M E K H) : Prop
  | passes (frames : List (Frame M E K H)) : m.stack = frames ++ stack → Clear p frames →
      m.control.promises p m.stack.head? ++ frames.flatMap (Frame.promises p) =
        happenings.flatMap Happening.promises →
      Change (w.standing p v) happenings (m.world.standing p v) →
      (v ≠ .idle → (∀ pass, w.phase p ≠ .dispatching t pass) → m.world.phase p = w.phase p) →
      Performs w t p v stack happenings m
  | serves : v = .idle → m.control = .resume .done → m.stack = .serving p :: stack →
      happenings.flatMap Happening.promises = [] →
      Change (w.standing p .idle) happenings (m.world.standing p .between) →
      (∀ owner pass, m.world.phase p = .dispatching owner pass → owner = t) →
      Performs w t p v stack happenings m

namespace World
variable {op : Op M E K} {happenings : List (Happening M E K)}

theorem performs_aside (frames : List (Frame M E K H)) (hstack : m.stack = frames ++ stack)
    (hclear : Clear p frames)
    (howes : m.control.promises p m.stack.head? ++ frames.flatMap (Frame.promises p) = [])
    (hs : ∀ v, m.world.standing p v = w.standing p v) : Performs w t p v stack [] m := by
  refine .passes frames hstack hclear howes ?_ ?_
  · rw [hs v]
    exact .rests
  · intro _ _
    exact congrArg Standing.phase (hs v)

theorem performs_answer (reply : Reply M K) : Performs w t p v stack [] (.answer w stack reply) :=
  performs_aside [] rfl clear_nil rfl fun _ => rfl

section
variable (hc : (w.standing p v).Coherent) (hp : w.points[p]? = some point)
include hc hp

theorem idle_of_listening {entries : List (Entry K)} (h : point.phase = .listening entries) :
    v = .idle :=
  hc.listening entries (by rw [standing_of_getElem? hp, h])

theorem register_performs {interest : Interest} {code : K}
    (h : w.register t stack p point interest code = some m) :
    Performs w t p v stack (point.receives (.register p interest code)) m := by
  unfold register at h
  cases hphase : point.phase with
  | listening entries =>
    obtain rfl := idle_of_listening hc hp hphase
    simp only [hphase, Phase.access, Phase.isEnded, Phase.join] at h
    cases h
    refine .passes [] rfl clear_nil (by simp [Point.receives, hphase]) ?_ ?_
    · simp only [Move.answer, standing_set_self hp, standing_of_getElem? hp, hphase, Point.receives]
      exact .registers interest code
    · intro h
      exact absurd rfl h
  | dispatching owner pass =>
    by_cases howner : owner = t
    · simp only [hphase, Phase.access, howner, if_true] at h
      cases h
      simp only [Point.receives, hphase]
      exact performs_aside [.acts p _ _] rfl (by simp [Frame.attends])
        (by simp [Point.report]) fun _ => rfl
    · simp [hphase, Phase.access, howner] at h
  | ended farewell =>
    simp only [hphase, Phase.access, Phase.isEnded, if_true] at h
    cases h
    simp only [Point.receives, hphase]
    exact performs_aside [.acts p _ _] rfl (by simp [Frame.attends])
      (by simp [Point.report]) fun _ => rfl

theorem unregister_performs {handle : Handle} (halive : w.isAlive p)
    (h : w.unregister t stack p point handle.id = some m) :
    Performs w t p v stack (point.receives (.unregister handle)) m := by
  simp only [unregister, halive, Bool.not_true] at h
  cases hphase : point.phase with
  | listening entries =>
    obtain rfl := idle_of_listening hc hp hphase
    by_cases hopen : heldOpen (without handle.id entries)
    · simp [hphase, Phase.access, Phase.remove, hopen, Phase.isEnded] at h
      cases h
      refine .passes [] rfl clear_nil
        (by simp [Point.receives, hphase, Phase.remove, hopen]) ?_ ?_
      · simp only [Move.answer, standing_setPhase_self hp, standing_of_getElem? hp, hphase,
          Point.receives, Phase.remove, hopen, if_true]
        exact .unregisters handle.id hopen
      · intro h
        exact absurd rfl h
    · simp [hphase, Phase.access, Phase.remove, hopen, Phase.isEnded] at h
      cases h
      refine .serves rfl rfl rfl (by simp [Point.receives, hphase, Phase.remove, hopen]) ?_ ?_
      · simp only [Move.serve, standing_setPhase_self hp, standing_of_getElem? hp, hphase,
          Point.receives, Phase.remove, hopen]
        exact .unregistersLast handle.id hopen
      · intro owner pass h
        have hended := congrArg Standing.phase (standing_setPhase_self (v := .idle) hp
          (.ended ⟨.tombstone, without handle.id entries, []⟩))
        cases hended.symm.trans h
  | dispatching owner pass =>
    by_cases howner : owner = t
    · simp only [hphase, Phase.access, howner, if_true] at h
      cases h
      refine .passes [] rfl clear_nil (by simp [Point.receives, hphase, Phase.remove]) ?_ ?_
      · simp only [Move.answer, standing_setPhase_self hp, standing_of_getElem? hp, hphase,
          Point.receives, Phase.remove, Phase.postpone]
        exact howner ▸ .unregistersInside handle.id
      · intro _ hnot
        exact absurd (howner ▸ hphase ▸ phase_eq hp) (hnot pass)
    · simp [hphase, Phase.access, howner] at h
  | ended farewell =>
    simp [hphase, Phase.access, Phase.remove, Phase.isEnded] at h
    cases h
    refine .passes [] rfl clear_nil (by simp [Point.receives, hphase, Phase.remove]) ?_ ?_
    · simp only [Move.answer, standing_setPhase_self hp, standing_of_getElem? hp, hphase,
        Point.receives, Phase.remove]
      exact .unregistersLate handle.id
    · intro _ _
      rw [phase_eq hp, hphase]
      exact congrArg Standing.phase (standing_setPhase_self (v := v) hp (.ended farewell))

theorem atEnd_performs {notice : Notice K} (h : w.atEnd t stack p point notice = some m) :
    Performs w t p v stack (point.receives (.atEnd p notice)) m := by
  unfold atEnd at h
  cases hphase : point.phase with
  | listening entries =>
    obtain rfl := idle_of_listening hc hp hphase
    by_cases hopen : heldOpen entries
    · simp only [hphase, Phase.access, Phase.isEnded, Phase.hasInterest, hopen, if_true,
        Phase.join] at h
      cases h
      refine .passes [] rfl clear_nil
        (by simp [Point.receives, hphase, Phase.receptionOfNotice, hopen]) ?_ ?_
      · simp only [Move.answer, standing_set_self hp, standing_of_getElem? hp, hphase,
          Point.receives, Phase.receptionOfNotice, hopen, if_true]
        exact .awaits notice hopen
      · intro h
        exact absurd rfl h
    · simp [hphase, Phase.access, Phase.isEnded, Phase.hasInterest, hopen] at h
      cases h
      refine .passes [.acts p _ _] rfl (by simp [Frame.attends])
        (by simp [Point.receives, hphase, Phase.receptionOfNotice, hopen]) ?_ ?_
      · simp only [Move.acts, standing_set_self hp, standing_of_getElem? hp, hphase,
          Point.receives, Phase.receptionOfNotice, hopen]
        exact .awaitsNothing notice hopen
      · intro h
        exact absurd rfl h
  | dispatching owner pass =>
    by_cases howner : owner = t
    · simp only [hphase, Phase.access, howner, if_true, Phase.postpone] at h
      cases h
      refine .passes [] rfl clear_nil
        (by simp [Point.receives, hphase, Phase.receptionOfNotice]) ?_ ?_
      · simp only [Move.answer, standing_set_self hp, standing_of_getElem? hp, hphase,
          Point.receives, Phase.receptionOfNotice]
        exact howner ▸ .awaitsInside notice
      · intro _ hnot
        exact absurd (howner ▸ hphase ▸ phase_eq hp) (hnot pass)
    · simp [hphase, Phase.access, howner] at h
  | ended farewell =>
    simp only [hphase, Phase.access, Phase.isEnded, if_true] at h
    cases h
    refine .passes [.acts p _ _] rfl (by simp [Frame.attends])
      (by simp [Point.receives, hphase, Phase.receptionOfNotice, Point.report]) ?_ ?_
    · simp only [Move.acts, standing_set_self hp, standing_of_getElem? hp, hphase, Point.receives,
        Phase.receptionOfNotice]
      exact .awaitsLate notice
    · intro _ _
      rw [phase_eq hp, hphase]
      exact congrArg Standing.phase (standing_set_self (v := v) hp _)

theorem push_performs {event : Event M E} (h : w.push t stack p point event = some m) :
    Performs w t p v stack (point.receives (.push p event)) m := by
  unfold push at h
  cases hphase : point.phase with
  | listening entries =>
    obtain rfl := idle_of_listening hc hp hphase
    simp only [hphase, Phase.access, Phase.isEnded, Phase.openPass] at h
    cases h
    have hstands (v : Service) :=
      standing_setPhase_self (v := v) hp (.dispatching t { event, waiting := entries })
    refine .serves rfl rfl rfl (by simp [Point.receives, hphase]) ?_ ?_
    · simp only [Move.serve, hstands, standing_of_getElem? hp, hphase, Point.receives]
      exact .pushes t event
    · intro owner pass h
      cases (congrArg Standing.phase (hstands .idle)).symm.trans h
      rfl
  | dispatching owner pass =>
    by_cases howner : owner = t
    · simp only [hphase, Phase.access, howner, if_true, Phase.postpone] at h
      cases h
      refine .passes [] rfl clear_nil (by simp [Point.receives, hphase]) ?_ ?_
      · simp only [Move.answer, standing_setPhase_self hp, standing_of_getElem? hp, hphase,
          Point.receives]
        exact howner ▸ .pushesInside event
      · intro _ hnot
        exact absurd (howner ▸ hphase ▸ phase_eq hp) (hnot pass)
    · simp [hphase, Phase.access, howner] at h
  | ended farewell =>
    simp only [hphase, Phase.access, Phase.isEnded, if_true] at h
    cases h
    refine .passes [.acts p _ _] rfl (by simp [Frame.attends])
      (by simp [Point.receives, hphase, Point.report]) ?_ ?_
    · simp only [Move.acts, standing_of_getElem? hp, hphase, Point.receives]
      exact .pushesLate event
    · intro _ _
      rfl

end

/-! ### Calls on other points -/

section
variable {q : Nat} (hne : q ≠ p)
include hne

theorem register_elsewhere {interest : Interest} {code : K}
    (h : w.register t stack q point interest code = some m) : Performs w t p v stack [] m := by
  unfold register at h
  split at h
  · cases h
  · cases h
    exact performs_aside [.acts q _ _] rfl (by simp [Frame.attends])
      (by simp [Point.report]) fun _ => rfl
  · split at h <;> cases h
    · exact performs_aside [.acts q _ _] rfl (by simp [Frame.attends])
        (by simp [Point.report]) fun _ => rfl
    · exact performs_aside [] rfl clear_nil rfl fun _ => standing_set_ne hne _

theorem unregister_elsewhere {id : Nat} (h : w.unregister t stack q point id = some m) :
    Performs w t p v stack [] m := by
  unfold unregister at h
  split at h
  · cases h
    exact performs_answer _
  · split at h
    · cases h
    · cases h
      exact performs_aside [] rfl clear_nil rfl fun _ => standing_setPhase_ne hne _
    · dsimp only at h
      split at h <;> cases h
      · exact performs_aside [.serving q] rfl (by simp [Frame.attends, hne]) rfl fun _ =>
          standing_setPhase_ne hne _
      · exact performs_aside [] rfl clear_nil rfl fun _ => standing_setPhase_ne hne _

theorem atEnd_elsewhere {notice : Notice K} (h : w.atEnd t stack q point notice = some m) :
    Performs w t p v stack [] m := by
  unfold atEnd at h
  dsimp only at h
  split at h
  · cases h
  · cases h
    exact performs_aside [] rfl clear_nil rfl fun _ => standing_set_ne hne _
  · repeat' split at h
    all_goals cases h
    · exact performs_aside [.acts q _ _] rfl (by simp [Frame.attends]) (by simp [Point.report, hne])
        fun _ => standing_set_ne hne _
    · exact performs_aside [] rfl clear_nil rfl fun _ => standing_set_ne hne _
    · exact performs_aside [.acts q _ _] rfl (by simp [Frame.attends]) (by simp [hne]) fun _ =>
        standing_set_ne hne _

theorem push_elsewhere {event : Event M E} (h : w.push t stack q point event = some m) :
    Performs w t p v stack [] m := by
  unfold push at h
  split at h
  · cases h
  · cases h
    exact performs_aside [] rfl clear_nil rfl fun _ => standing_setPhase_ne hne _
  · split at h <;> cases h
    · exact performs_aside [.acts q _ _] rfl (by simp [Frame.attends]) (by simp [Point.report, hne])
        fun _ => rfl
    · exact performs_aside [.serving q] rfl (by simp [Frame.attends, hne]) rfl fun _ =>
        standing_setPhase_ne hne _

end

/-! ### All calls -/

/-- The client itself asks for a diagnostic. -/
theorem performs_emitted (sink : Sink K) {kind : Kind} {label reason : Option String}
    (holder : Option Nat) (frames : List (Frame M E K H)) (hstack : m.stack = frames ++ stack)
    (hclear : Clear p frames)
    (howes : m.control.promises p m.stack.head? ++ frames.flatMap (Frame.promises p) =
      ((.report sink kind label reason : Act M E K).promise? p holder).toList)
    (hworld : m.world = w) :
    Performs w t p v stack (if label = some (Point.label p) then [.emitted kind reason] else [])
      m := by
  have hpromises : ((.report sink kind label reason : Act M E K).promise? p holder).toList =
      (if label = some (Point.label p) then [.emitted kind reason] else [] :
        List (Happening M E K)).flatMap Happening.promises := by
    by_cases hlabel : label = some (Point.label p) <;> by_cases hkind : kind = .lateEvent <;>
      simp [hlabel, hkind]
  refine .passes frames hstack hclear (howes.trans hpromises) ?_ ?_
  · rw [hworld]
    split
    · exact .aside trivial
    · exact .rests
  · intro _ _
    rw [hworld]

theorem emit_performs {q : Nat} {kind : Kind} {label reason : Option String}
    (hq : w.points[q]? = some point) :
    Performs w t p v stack (w.receives p (.emit q kind label reason))
      (.acts w stack q [.report point.sink kind label reason] .done) := by
  simp only [receives, hq, Option.isSome_some, true_and]
  refine performs_emitted point.sink (some q) [.acts q _ _] rfl (by simp [Frame.attends]) ?_ rfl
  by_cases hlate : kind = .lateEvent ∧ label = some (Point.label p) <;> simp [hlate]

theorem receives_elsewhere {q : Nat} (hw : op.waitsFor? = some q) (hne : q ≠ p) :
    w.receives p op = [] := by
  cases op <;> simp only [Op.waitsFor?, reduceCtorEq, Option.some.injEq] at hw
  case unregister handle =>
    simp only [receives, hw, Option.some.injEq, hne, false_and, if_false]
    split <;> rfl
  all_goals
    simp only [receives, Op.waitsFor?, Option.some.injEq, hw, hne, if_false]
    split <;> rfl

theorem receives_absent {q : Nat} (hw : op.waitsFor? = some q) (hq : w.points[q]? = none) :
    w.receives p op = [] := by
  by_cases hqp : q = p
  · subst hqp
    cases op <;> simp only [Op.waitsFor?, reduceCtorEq] at hw <;> simp only [receives, hq]
  · exact receives_elsewhere hw hqp

theorem receives_of_waitsFor?_none (hw : op.waitsFor? = none)
    (he : ∀ q kind label reason, op ≠ .emit q kind label reason)
    (hr : ∀ sink kind label reason, op ≠ .report sink kind label reason) :
    w.receives p op = [] := by
  cases op with
  | emit q kind label reason => exact absurd rfl (he q kind label reason)
  | report sink kind label reason => exact absurd rfl (hr sink kind label reason)
  | unregister handle =>
    simp only [Op.waitsFor?] at hw
    simp only [receives, hw, reduceCtorEq, false_and, if_false]
    split <;> rfl
  | register => cases hw
  | atEnd => cases hw
  | push => cases hw
  | _ =>
    simp only [receives, Op.waitsFor?, reduceCtorEq, if_false]
    split <;> rfl

/-- A call on a point is received there, and other points see nothing of it; on a point that does
not exist it is answered at once. -/
theorem performs_on {q : Nat} {call : Point M E K → Option (Move M E K H)}
    (hw : op.waitsFor? = some q)
    (hhere : ∀ point, w.points[q]? = some point → q = p → call point = some m →
      Performs w t p v stack (w.receives p op) m)
    (helsewhere : ∀ point, q ≠ p → call point = some m → Performs w t p v stack [] m)
    (h : (match w.points[q]? with
      | some point => call point
      | none => some (.answer w stack .done)) = some m) :
    Performs w t p v stack (w.receives p op) m := by
  split at h
  · rename_i point hq
    by_cases hqp : q = p
    · exact hhere point hq hqp h
    · rw [receives_elsewhere hw hqp]
      exact helsewhere point hqp h
  · rename_i hq
    cases h
    rw [receives_absent hw hq]
    exact performs_answer _

theorem perform_performs (hc : (w.standing p v).Coherent)
    (h : w.perform client t stack op = some m) :
    Performs w t p v stack (w.receives p op) m := by
  cases op with
  | register q interest code =>
    refine performs_on rfl ?_ (fun _ hne => register_elsewhere hne) h
    rintro point hq rfl h
    simp only [receives, hq, Op.waitsFor?, if_true]
    exact register_performs hc hq h
  | atEnd q notice =>
    refine performs_on rfl ?_ (fun _ hne => atEnd_elsewhere hne) h
    rintro point hq rfl h
    simp only [receives, hq, Op.waitsFor?, if_true]
    exact atEnd_performs hc hq h
  | push q event =>
    refine performs_on rfl ?_ (fun _ hne => push_elsewhere hne) h
    rintro point hq rfl h
    simp only [receives, hq, Op.waitsFor?, if_true]
    exact push_performs hc hq h
  | unregister handle =>
    simp only [perform] at h
    split at h
    · rename_i q hhandle
      refine performs_on hhandle ?_ (fun _ hne => unregister_elsewhere hne) h
      rintro point hq rfl h
      by_cases halive : w.isAlive q
      · simp only [receives, hq, hhandle, halive, and_self, if_true]
        exact unregister_performs hc hq halive h
      · simp only [unregister, halive] at h
        cases h
        have hnone : w.receives q (.unregister handle) = [] := by simp [receives, hq, halive]
        rw [hnone]
        exact performs_answer _
    · rename_i hhandle
      cases h
      have hnone : w.receives p (.unregister handle) = [] :=
        receives_of_waitsFor?_none hhandle (by simp) (by simp)
      rw [hnone]
      exact performs_answer _
  | emit q kind label reason =>
    simp only [perform] at h
    split at h
    · rename_i point hq
      cases h
      exact emit_performs hq
    · rename_i hq
      cases h
      simp only [receives, hq]
      exact performs_answer _
  | report sink kind label reason =>
    cases h
    exact performs_emitted sink _ [] rfl clear_nil (List.append_nil _) rfl
  | create request sink =>
    cases h
    rw [receives_of_waitsFor?_none rfl (by simp) (by simp)]
    exact performs_aside [] rfl clear_nil rfl fun _ => standing_create _ _
  | release q =>
    cases h
    rw [receives_of_waitsFor?_none rfl (by simp) (by simp)]
    exact performs_aside [] rfl clear_nil rfl fun _ => standing_modify fun _ => ⟨rfl, rfl, rfl⟩
  | answerPoke q code =>
    cases h
    rw [receives_of_waitsFor?_none rfl (by simp) (by simp)]
    exact performs_aside [] rfl clear_nil rfl fun _ => standing_modify fun _ => ⟨rfl, rfl, rfl⟩
  | inspect q =>
    rw [receives_of_waitsFor?_none rfl (by simp) (by simp)]
    simp only [perform] at h
    split at h <;> cases h <;> exact performs_answer _
  | poke q =>
    rw [receives_of_waitsFor?_none rfl (by simp) (by simp)]
    simp only [perform] at h
    split at h
    · rename_i point hq
      cases h
      unfold poke
      repeat' split
      · exact performs_answer _
      · exact performs_aside [.acts q _ _] rfl (by simp [Frame.attends]) (by simp) fun _ => rfl
      · exact performs_aside [.acts q _ _] rfl (by simp [Frame.attends])
          (by simp [Point.report]) fun _ => rfl
    · cases h
      exact performs_answer _
  | bind q name producer config sink =>
    rw [receives_of_waitsFor?_none rfl (by simp) (by simp)]
    simp only [perform] at h
    split at h <;> cases h
    · exact performs_aside [.acts q _ _] rfl (by simp [Frame.attends])
        (by simp [World.bind]) fun _ => standing_congr rfl
    · exact performs_answer _
  | cancel task =>
    cases h
    rw [receives_of_waitsFor?_none rfl (by simp) (by simp)]
    exact performs_aside [] rfl clear_nil rfl fun _ => standing_congr calm_cancel.points
  | attempt code =>
    cases h
    rw [receives_of_waitsFor?_none rfl (by simp) (by simp)]
    exact performs_aside [.catching] rfl (by simp [Frame.attends]) rfl fun _ => rfl
  | fork code wait =>
    cases h
    rw [receives_of_waitsFor?_none rfl (by simp) (by simp)]
    exact performs_aside [] rfl clear_nil (by cases wait <;> rfl) fun _ => standing_congr rfl
  | _ =>
    cases h
    rw [receives_of_waitsFor?_none rfl (by simp) (by simp)]
    exact performs_aside [] rfl clear_nil rfl fun _ => standing_congr rfl

end World
end Exchange
