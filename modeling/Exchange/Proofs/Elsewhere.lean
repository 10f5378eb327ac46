import Exchange.Proofs.Serving

/-!
Steps that leave a point alone. A call changes no point but the one on which it is made, and then only if
it is a call that may; and what is left to do at one point is never done to another.
-/

namespace Exchange
set_option autoImplicit false

variable {M E K H : Type} {client : Client M E K H} {w : World M E K H} {t p q : Nat}
variable {control : Control M E K H} {stack : List (Frame M E K H)} {m : Move M E K H}
variable {op : Op M E K} {other : Point M E K}

/-- The point that the call may change. -/
def Op.changes? : Op M E K → Option Nat
  | .register p _ _ | .atEnd p _ | .push p _ | .release p | .answerPoke p _ => some p
  | .unregister handle => handle.point
  | _ => none

namespace World

/-! ## Calls -/

theorem getElem?_setPhase_ne (hne : q ≠ p) (phase : Phase M E K) :
    (w.setPhase q phase).points[p]? = w.points[p]? := List.getElem?_modify_ne _ _ hne

section
variable (hne : q ≠ p)
include hne

theorem register_apart {interest : Interest} {code : K}
    (h : w.register t stack q other interest code = some m) : m.world.points[p]? = w.points[p]? := by
  unfold register at h
  repeat' split at h
  all_goals cases h <;> first | rfl | exact List.getElem?_set_ne hne

theorem unregister_apart {id : Nat} (h : w.unregister t stack q other id = some m) :
    m.world.points[p]? = w.points[p]? := by
  unfold unregister at h
  dsimp only at h
  repeat' split at h
  all_goals cases h <;> first | rfl | exact getElem?_setPhase_ne hne _

theorem atEnd_apart {notice : Notice K} (h : w.atEnd t stack q other notice = some m) :
    m.world.points[p]? = w.points[p]? := by
  unfold atEnd at h
  dsimp only at h
  repeat' split at h
  all_goals cases h <;> exact List.getElem?_set_ne hne

theorem push_apart {event : Event M E} (h : w.push t stack q other event = some m) :
    m.world.points[p]? = w.points[p]? := by
  unfold push at h
  repeat' split at h
  all_goals cases h <;> first | rfl | exact getElem?_setPhase_ne hne _

end

theorem cancel_points (t : Nat) : (w.cancel t).points = w.points := calm_cancel.points

theorem perform_apart (hcreate : ∀ request sink, op ≠ .create request sink)
    (hne : op.changes? ≠ some p) (h : w.perform client t stack op = some m) :
    m.world.points[p]? = w.points[p]? := by
  have hne {q : Nat} (hq : op.changes? = some q) : q ≠ p := fun h => hne (h ▸ hq)
  cases op with
  | create request sink => exact absurd rfl (hcreate request sink)
  | release q =>
    cases h
    exact List.getElem?_modify_ne _ _ (hne rfl)
  | answerPoke q code =>
    cases h
    exact List.getElem?_modify_ne _ _ (hne rfl)
  | register q interest code =>
    simp only [perform] at h
    split at h
    · exact register_apart (hne rfl) h
    · cases h
      rfl
  | unregister handle =>
    simp only [perform] at h
    repeat' split at h
    · rename_i hq _ _ _
      exact unregister_apart (hne hq) h
    all_goals
      cases h
      rfl
  | atEnd q notice =>
    simp only [perform] at h
    split at h
    · exact atEnd_apart (hne rfl) h
    · cases h
      rfl
  | push q event =>
    simp only [perform] at h
    split at h
    · exact push_apart (hne rfl) h
    · cases h
      rfl
  | poke q =>
    simp only [perform] at h
    split at h
    · unfold poke at h
      repeat' split at h
      all_goals
        cases h
        rfl
    · cases h
      rfl
  | cancel t =>
    cases h
    rw [Move.answer, cancel_points]
  | inspect q =>
    simp only [perform] at h
    split at h <;> cases h <;> rfl
  | emit q kind label reason =>
    simp only [perform] at h
    split at h <;> cases h <;> rfl
  | bind q name producer config sink =>
    simp only [perform] at h
    split at h <;> cases h <;> rfl
  | _ =>
    cases h
    rfl

theorem standing_of_same {w' : World M E K H} {v : Service} (h : w'.points[p]? = w.points[p]?) :
    w'.standing p v = w.standing p v := by
  simp only [standing, phase, nextId, nextTicket, h]

/-- Where a point stands changes only by calls that wait for it. -/
theorem perform_standing {v : Service} (hne : op.waitsFor? ≠ some p)
    (h : w.perform client t stack op = some m) : m.world.standing p v = w.standing p v := by
  have same (hcreate : ∀ request sink, op ≠ .create request sink) (hne : op.changes? ≠ some p) :
      m.world.standing p v = w.standing p v := standing_of_same (perform_apart hcreate hne h)
  cases op with
  | create request sink =>
    cases h
    exact standing_create request sink
  | release q =>
    cases h
    exact standing_modify fun _ => ⟨rfl, rfl, rfl⟩
  | answerPoke q code =>
    cases h
    exact standing_modify fun _ => ⟨rfl, rfl, rfl⟩
  | register => exact same (by simp) hne
  | unregister => exact same (by simp) hne
  | atEnd => exact same (by simp) hne
  | push => exact same (by simp) hne
  | _ => exact same (by simp) (by simp [Op.changes?])

/-! ## What is left to do at another point -/

section
variable (hne : q ≠ p)
include hne

theorem serve_apart : (w.serve t stack q other).world.points[p]? = w.points[p]? := by
  unfold serve
  dsimp only
  repeat' split
  all_goals first | rfl | exact getElem?_setPhase_ne hne _

theorem serving_apart (reply : Reply M K) :
    (w.resume client t stack reply (.serving q)).world.points[p]? = w.points[p]? := by
  simp only [resume]
  split
  · exact serve_apart hne
  · rfl

theorem delivering_apart (reply : Reply M K) :
    (w.resume client t stack reply (.delivering q)).world.points[p]? = w.points[p]? := by
  simp only [resume]
  split
  · exact getElem?_setPhase_ne hne _
  · rfl

theorem unwinding_apart (payload : Payload) :
    (w.unwind client stack payload (.delivering q)).world.points[p]? = w.points[p]? := by
  simp only [unwind]
  split
  · exact getElem?_setPhase_ne hne _
  · rfl

end

/-- A step that passes a point by leaves it as it is. -/
theorem points_of_past (hm : w.move client t stack control = some m) (h : Past p control stack) :
    m.world.points[p]? = w.points[p]? := by
  have stride := move_stride hm
  obtain ⟨hcall, htop⟩ := h
  have other {q : Nat} (hreturn : control.IsReturn)
      (h : stack.head? = some (.serving q) ∨ stack.head? = some (.delivering q)) : q ≠ p := by
    rcases h with h | h <;> simpa [Frame.attends] using htop hreturn _ h
  cases stride with
  | changes _ hcalm => rw [hcalm.points]
  | answers => exact absurd rfl (hcall _)
  | owes => exact absurd rfl (hcall _)
  | serves => exact absurd rfl (hcall _)
  | joins _ h => rw [h.elim (·.points) (·.points)]
  | joinsPanic _ h => rw [h.points]
  | acts hcalm => rw [hcalm.points]
  | records hcalm => rw [hcalm.points]
  | fansOn _ _ hcalm => rw [hcalm.points]
  | runsOn _ _ _ hcalm => rw [hcalm.points]
  | closes _ _ hcalm => rw [hcalm.points]
  | pops _ _ hcalm => rw [hcalm.points]
  | forks => exact absurd rfl (hcall _)
  | forksAndWaits => exact absurd rfl (hcall _)
  | advances => exact Option.some.inj hm ▸ serving_apart (other trivial (.inl rfl)) _
  | drops => exact Option.some.inj hm ▸ serving_apart (other trivial (.inl rfl)) _
  | retires => exact Option.some.inj hm ▸ serving_apart (other trivial (.inl rfl)) _
  | leaves hreturn =>
    have hne := other hreturn (.inr rfl)
    cases control <;> first | exact hreturn.elim | skip
    · exact Option.some.inj hm ▸ delivering_apart hne _
    · exact Option.some.inj hm ▸ unwinding_apart hne _
  | catches => exact Option.some.inj hm ▸ unwinding_apart (other trivial (.inr rfl)) _
  | _ => rfl

/-- A step that is neither a call that waits for the point nor about the call that serves it. -/
theorem standing_of_apart {v : Service} (hm : w.move client t stack control = some m)
    (hcall : ∀ op, control = .perform op → op.waitsFor? ≠ some p)
    (htop : control.IsReturn → ∀ frame, stack.head? = some frame → frame.attends p = false) :
    m.world.standing p v = w.standing p v := by
  by_cases hop : ∃ op, control = .perform op
  · obtain ⟨op, rfl⟩ := hop
    exact perform_standing (hcall op rfl) hm
  · exact standing_of_same (points_of_past hm ⟨fun op h => hop ⟨op, h⟩, htop⟩)

end World
end Exchange
