import Exchange.Proofs.Elsewhere
import Exchange.Proofs.Panics

/-!
How the phase of a point turns over. Calls from outside change the list, open a pass or end the point; calls
from inside its pass are put off and do nothing else; and only the call whose frame serves the point closes
the pass, when all have had their turn.
-/

namespace Exchange
set_option autoImplicit false

variable {M E K H : Type} {client : Client M E K H} {w : World M E K H} {t p : Nat}
variable {control : Control M E K H} {stack : List (Frame M E K H)} {m : Move M E K H}
variable {op : Op M E K} {point : Point M E K}

/-- What a call from inside a pass puts off. -/
def Op.postponed? (ticket : Nat) : Op M E K → Option (Postponed M E K)
  | .unregister handle => some (.unregister handle.id)
  | .push _ event => some (.push event)
  | .atEnd _ notice => some (.ending ticket notice)
  | _ => none

/-- What the first step of a call of thread `t` makes of the phase of point `p`. -/
inductive Op.Turns (t p : Nat) : Op M E K → Phase M E K → Phase M E K → Prop
  | registers {entries} (id : Nat) (interest : Interest) (code : K) :
      Turns t p (.register p interest code) (.listening entries)
        (.listening (entries ++ [.observer id interest code]))
  | awaits {entries} (ticket : Nat) (notice : Notice K) :
      Turns t p (.atEnd p notice) (.listening entries)
        (.listening (entries ++ [.ending ticket notice]))
  | unregisters {entries} (handle : Handle) : handle.point = some p →
      heldOpen (without handle.id entries) →
      Turns t p (.unregister handle) (.listening entries) (.listening (without handle.id entries))
  | lapses {entries} (handle : Handle) : handle.point = some p →
      ¬heldOpen (without handle.id entries) →
      Turns t p (.unregister handle) (.listening entries)
        (.ended ⟨.tombstone, without handle.id entries, []⟩)
  | pushes {entries} (event : Event M E) :
      Turns t p (.push p event) (.listening entries)
        (.dispatching t { event, waiting := entries })
  | putsOff {op pass} (ticket : Nat) (call : Postponed M E K) : op.waitsFor? = some p →
      op.postponed? ticket = some call →
      Turns t p op (.dispatching t pass)
        (.dispatching t { pass with postponed := pass.postponed ++ [call] })

namespace World

theorem phase_set (hp : w.points[p]? = some point) (new : Point M E K) :
    ({ w with points := w.points.set p new } : World M E K H).phase p = new.phase :=
  congrArg Standing.phase (standing_set_self (v := .idle) hp new)

theorem access_inside {phase : Phase M E K} (h : phase.access t = .inside) :
    ∃ pass, phase = .dispatching t pass := by
  cases phase with
  | dispatching owner pass =>
    by_cases howner : owner = t
    · exact ⟨pass, by rw [howner]⟩
    · simp [Phase.access, howner] at h
  | _ => cases h

theorem access_ne_free (owner : Nat) (pass : Pass M E K) :
    (Phase.dispatching owner pass).access t ≠ .free := by
  simp only [Phase.access]
  split <;> simp

section
variable (hp : w.points[p]? = some point)
include hp

theorem register_turns {interest : Interest} {code : K}
    (h : w.register t stack p point interest code = some m) :
    m.world.phase p = point.phase ∨
      Op.Turns t p (.register p interest code) point.phase (m.world.phase p) := by
  unfold register at h
  cases hphase : point.phase with
  | listening entries =>
    simp only [hphase, Phase.access, Phase.isEnded, Phase.join] at h
    cases h
    right
    simp only [Move.answer, phase_set hp]
    exact .registers _ interest code
  | dispatching owner pass =>
    split at h
    · cases h
    · cases h
      exact .inl ((phase_eq hp).trans hphase)
    · rename_i hfree
      exact absurd (hphase ▸ hfree) (access_ne_free owner pass)
  | ended farewell =>
    simp only [hphase, Phase.access, Phase.isEnded, if_true] at h
    cases h
    exact .inl ((phase_eq hp).trans hphase)

theorem unregister_turns {handle : Handle} (hhandle : handle.point = some p)
    (h : w.unregister t stack p point handle.id = some m) :
    m.world.phase p = point.phase ∨
      Op.Turns t p (.unregister handle) point.phase (m.world.phase p) := by
  unfold unregister at h
  split at h
  · cases h
    exact .inl (phase_eq hp)
  cases hphase : point.phase with
  | listening entries =>
    right
    by_cases hopen : heldOpen (without handle.id entries)
    · simp [hphase, Phase.access, Phase.remove, hopen, Phase.isEnded] at h
      cases h
      simp only [Move.answer, phase_setPhase hp]
      exact .unregisters handle hhandle hopen
    · simp [hphase, Phase.access, Phase.remove, hopen, Phase.isEnded] at h
      cases h
      simp only [Move.serve, phase_setPhase hp]
      exact .lapses handle hhandle hopen
  | dispatching owner pass =>
    split at h
    · cases h
    · rename_i hinside
      cases h
      obtain ⟨pass', hpass⟩ := access_inside hinside
      cases hphase.symm.trans hpass
      right
      simp only [Move.answer, phase_setPhase hp, hphase, Phase.postpone]
      exact .putsOff 0 (.unregister handle.id) hhandle rfl
    · rename_i hfree
      exact absurd (hphase ▸ hfree) (access_ne_free owner pass)
  | ended farewell =>
    simp [hphase, Phase.access, Phase.remove, Phase.isEnded] at h
    cases h
    simp [Move.answer, phase_setPhase hp]

theorem atEnd_turns {notice : Notice K} (h : w.atEnd t stack p point notice = some m) :
    m.world.phase p = point.phase ∨
      Op.Turns t p (.atEnd p notice) point.phase (m.world.phase p) := by
  unfold atEnd at h
  dsimp only at h
  cases hphase : point.phase with
  | listening entries =>
    simp only [hphase, Phase.access, Phase.isEnded, Phase.join] at h
    split at h
    · rename_i hended
      cases hended
    · split at h <;> cases h
      · right
        simp only [Move.answer, phase_set hp]
        exact .awaits _ notice
      · left
        simp only [Move.acts, phase_set hp]
  | dispatching owner pass =>
    split at h
    · cases h
    · rename_i hinside
      cases h
      obtain ⟨pass', hpass⟩ := access_inside hinside
      cases hphase.symm.trans hpass
      right
      simp only [Move.answer, phase_set hp, hphase, Phase.postpone]
      exact .putsOff point.nextTicket (.ending point.nextTicket notice) rfl rfl
    · rename_i hfree
      exact absurd (hphase ▸ hfree) (access_ne_free owner pass)
  | ended farewell =>
    simp only [hphase, Phase.access, Phase.isEnded, if_true] at h
    cases h
    left
    simp only [Move.acts, phase_set hp]

theorem push_turns {event : Event M E} (h : w.push t stack p point event = some m) :
    m.world.phase p = point.phase ∨
      Op.Turns t p (.push p event) point.phase (m.world.phase p) := by
  unfold push at h
  cases hphase : point.phase with
  | listening entries =>
    simp only [hphase, Phase.access, Phase.isEnded, Phase.openPass] at h
    cases h
    right
    simp only [Move.serve, phase_setPhase hp]
    exact .pushes event
  | dispatching owner pass =>
    split at h
    · cases h
    · rename_i hinside
      cases h
      obtain ⟨pass', hpass⟩ := access_inside hinside
      cases hphase.symm.trans hpass
      right
      simp only [Move.answer, phase_setPhase hp, hphase, Phase.postpone]
      exact .putsOff 0 (.push event) rfl rfl
    · rename_i hfree
      exact absurd (hphase ▸ hfree) (access_ne_free owner pass)
  | ended farewell =>
    simp only [hphase, Phase.access, Phase.isEnded, if_true] at h
    cases h
    exact .inl ((phase_eq hp).trans hphase)

end

theorem perform_turns (h : w.perform client t stack op = some m) :
    m.world.phase p = w.phase p ∨ Op.Turns t p op (w.phase p) (m.world.phase p) := by
  by_cases hw : op.waitsFor? = some p
  · cases hp : w.points[p]? with
    | none =>
      have hanswer : m = .answer w stack .done := by
        cases op <;> simp_all [Op.waitsFor?, perform]
      exact .inl (by rw [hanswer]; rfl)
    | some point =>
      rw [phase_eq hp]
      cases op <;> simp only [Op.waitsFor?, reduceCtorEq, Option.some.injEq] at hw
      case register =>
        subst hw
        simp only [perform, hp] at h
        exact register_turns hp h
      case unregister handle =>
        simp only [perform, hw, hp] at h
        exact unregister_turns hp hw h
      case atEnd =>
        subst hw
        simp only [perform, hp] at h
        exact atEnd_turns hp h
      case push =>
        subst hw
        simp only [perform, hp] at h
        exact push_turns hp h
  · exact .inl (congrArg Standing.phase (perform_standing (v := .idle) hw h))

end World

/-! ## All steps -/

/-- How a step of a thread changes the phase of a point. -/
inductive Turnover (p : Nat) (thread : Thread M E K H) : Phase M E K → Phase M E K → Prop
  | calls {op phase phase'} : thread.control = .perform op → op.Turns thread.id p phase phase' →
      Turnover p thread phase phase'
  /-- An entry has had its turn, or needs none. -/
  | advances {phase} (stays : Bool) : thread.control.IsReturn →
      (∃ frame, thread.stack.head? = some frame ∧ frame.attends p) →
      Turnover p thread phase (phase.advance stays)
  | commits {owner pass} (reply : Reply M K) (below : List (Frame M E K H)) :
      thread.control = .resume reply → thread.stack = .serving p :: below → pass.waiting = [] →
      Turnover p thread (.dispatching owner pass) (pass.commit thread.id)
  | drops {farewell} : Turnover p thread (.ended farewell) (Phase.dropLate (.ended farewell))

namespace World

theorem serve_turnover {below : List (Frame M E K H)} {reply : Reply M K}
    (hp : w.points[p]? = some point) :
    (w.serve t below p point).world.phase p = point.phase ∨
      Turnover p ⟨t, .resume reply, .serving p :: below⟩ point.phase
        ((w.serve t below p point).world.phase p) := by
  have attends : ∃ frame : Frame M E K H,
      (Frame.serving p :: below).head? = some frame ∧ frame.attends p :=
    ⟨_, rfl, by simp [Frame.attends]⟩
  cases hdue : point.phase.due with
  | some turn =>
    obtain ⟨entry, event⟩ := turn
    rw [serve_of_due hdue]
    unfold offer
    split
    · exact .inl (phase_eq hp)
    · right
      simp only [Move.answer, phase_setPhase hp]
      exact .advances true trivial attends
  | none =>
    cases hphase : point.phase with
    | listening entries =>
      simp only [serve, hphase]
      exact .inl ((phase_eq hp).trans hphase)
    | dispatching owner pass =>
      have hwaiting : pass.waiting = [] := by simpa [hphase, Phase.due] using hdue
      right
      simp only [serve, hphase, hwaiting, Move.answer, phase_setPhase hp]
      exact .commits reply below rfl rfl hwaiting
    | ended farewell =>
      have hwaiting : farewell.waiting = [] := by simpa [hphase, Phase.due] using hdue
      cases hlate : farewell.late with
      | cons dropped late =>
        right
        simp only [serve, hphase, hwaiting, hlate, phase_setPhase hp]
        exact .drops
      | nil =>
        simp only [serve, hphase, hwaiting, hlate]
        exact .inl ((phase_eq hp).trans hphase)

/-- A phase changes by calls on its point and by what the call does that serves it. -/
theorem move_turnover (hm : w.move client t stack control = some m) :
    m.world.phase p = w.phase p ∨
      Turnover p ⟨t, control, stack⟩ (w.phase p) (m.world.phase p) := by
  by_cases hpast : Past p control stack
  · exact .inl (congrArg Standing.phase (standing_of_past (v := .idle) hm hpast))
  cases control with
  | perform op => exact (perform_turns hm).imp_right (.calls rfl)
  | resume reply =>
    cases stack with
    | nil => cases hm
    | cons frame below =>
      cases hm
      by_cases hframe : frame.attends p
      · rcases Frame.attends_iff.mp hframe with rfl | rfl
        · simp only [resume]
          split
          · rename_i point hp
            rw [phase_eq hp]
            exact serve_turnover hp
          · exact .inl rfl
        · simp only [resume]
          split
          · rename_i point hp
            right
            simp only [Move.answer, phase_setPhase hp, phase_eq hp]
            exact .advances _ trivial ⟨_, rfl, hframe⟩
          · exact .inl rfl
      · exact absurd (past_of_frame (by simpa using hframe) (by simp)) hpast
  | unwind payload =>
    cases stack with
    | nil => cases hm
    | cons frame below =>
      cases hm
      by_cases hframe : frame.attends p
      · rcases Frame.attends_iff.mp hframe with rfl | rfl
        · exact .inl rfl
        · simp only [unwind]
          split
          · rename_i point hp
            right
            simp only [phase_setPhase hp, phase_eq hp]
            exact .advances false trivial ⟨_, rfl, hframe⟩
          · exact .inl rfl
      · exact absurd (past_of_frame (by simpa using hframe) (by simp)) hpast
  | _ => exact absurd ⟨by simp, fun h => h.elim⟩ hpast

end World
end Exchange
