import Exchange.Proofs.Standing

/-!
What calls promise and have still to do: to give a notice that comes when there is no interest, and
to report an event that comes too late. A promise stands in a frame until the act is begun that
keeps it.
-/

namespace Exchange
set_option autoImplicit false

variable {M E K H : Type}

inductive Promise where
  /-- To give the notice of that ticket. -/
  | notice (ticket : Nat)
  /-- To report an event as late. -/
  | late (reason : Option String)
deriving DecidableEq

/-- The promise that the act keeps when a call on point `holder` does it. -/
@[simp] def Act.promise? (p : Nat) (holder : Option Nat) : Act M E K → Option Promise
  | .notify n _ => if holder = some p then some (.notice n) else none
  | .report _ kind label reason =>
    if kind = .lateEvent ∧ label = some (Point.label p) then some (.late reason) else none
  | _ => none

namespace Frame

/-- The point of a call that has things left to do. -/
@[simp] def holder? : Frame M E K H → Option Nat
  | .acts q _ _ => some q
  | _ => none

@[simp] def promises (p : Nat) : Frame M E K H → List Promise
  | .acts q todo _ => todo.filterMap (Act.promise? p (some q))
  | _ => []

end Frame

/-- The promise that is about to be kept, `top` being the uppermost frame. -/
@[simp] def Control.promises (p : Nat) (top : Option (Frame M E K H)) :
    Control M E K H → List Promise
  | .act due => (due.promise? p (top.bind Frame.holder?)).toList
  | _ => []

/-- All promises of a thread in the middle of something. -/
def promisesOf (p : Nat) (control : Control M E K H) (stack : List (Frame M E K H)) :
    List Promise :=
  control.promises p stack.head? ++ stack.flatMap (Frame.promises p)

namespace Happening

@[simp] def promises : Happening M E K → List Promise
  | .awaited n _ .atOnce | .awaited n _ .late => [.notice n]
  | .pushed event .late | .dropped event => [.late (some event.lateName)]
  | .emitted kind reason => if kind = .lateEvent then [.late reason] else []
  | _ => []

@[simp] def keeps : Happening M E K → List Promise
  | .notified n _ .call => [.notice n]
  | .reported kind reason => if kind = .lateEvent then [.late reason] else []
  | _ => []

end Happening

@[simp] theorem Point.label_inj {p q : Nat} : Point.label p = Point.label q ↔ p = q := by
  constructor
  · intro h
    have hrepr : p.repr = q.repr := by simpa [Point.label] using h
    have hdigits : Nat.toDigits 10 p = Nat.toDigits 10 q := by
      simpa [Nat.repr] using congrArg String.toList hrepr
    rw [← Nat.ofDigitChars_ten_toDigits (n := p), hdigits, Nat.ofDigitChars_ten_toDigits]
  · intro h
    rw [h]

namespace Act
variable {p : Nat} {holder : Option Nat} {act : Act M E K}

theorem promise?_of_isAside (h : act.IsAside) : act.promise? p holder = none := by
  cases act with
  | report sink kind label reason => exact if_neg fun hkind => h hkind.1
  | notify => exact h.elim
  | _ => rfl

theorem promise?_of_not_isDue (h : ¬act.IsDue) : act.promise? p holder = none := by
  cases act <;> first | rfl | exact absurd trivial h

end Act
end Exchange
