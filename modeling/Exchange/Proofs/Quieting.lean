import Exchange.Proofs.Recast

/-!
An exchange without its reports: those that are under way are taken for done, and some that are yet to begin
are left out. Threads hold the points that they held, and are over if they were.
-/

namespace Exchange
set_option autoImplicit false

variable {M E K H V : Type} {client : Client M E K H} {w w' : World M E K H} {t n : Nat}
  {thread : Thread M E K H}
variable {control : Control M E K H} {stack : List (Frame M E K H)} {m : Move M E K H}
variable {frame : Frame M E K H} {view : H → V} {due : List Nat} {p : Nat}
variable {f : H → H} {g : Nat → Nat}

/-! ## Threads -/

/-- The thread once its report is over; a report that is due is left out. -/
def Thread.quieted (due : List Nat) (thread : Thread M E K H) : Thread M E K H :=
  if thread.isReporting || due.contains thread.id && thread.control.isReport then
    ⟨thread.id, .resume .done, beneath thread.stack⟩
  else thread

@[simp] theorem Thread.quieted_id : (thread.quieted due).id = thread.id := by
  unfold quieted
  split <;> rfl

theorem Thread.quieted_congr {due' : List Nat} (h : due'.contains thread.id = due.contains thread.id) :
    thread.quieted due' = thread.quieted due := by
  unfold quieted
  rw [h]

theorem Thread.Apart.quieted (h : thread.Apart)
    (hd : thread.control.isReport → due.contains thread.id = false) : thread.quieted due = thread := by
  unfold Thread.quieted
  rw [h.not_reporting]
  cases hr : thread.control.isReport with
  | true => simp only [hd hr, Bool.false_and, Bool.or_self, Bool.false_eq_true, if_false]
  | false => simp only [Bool.and_false, Bool.or_self, Bool.false_eq_true, if_false]

theorem Thread.quieted_due (hr : control.isReport) (hd : due.contains n) (hs : beneath stack = stack) :
    Thread.quieted due ⟨n, control, stack⟩ = ⟨n, .resume .done, stack⟩ := by
  simp only [quieted, hd, hr, hs, Bool.and_self, Bool.or_true, if_true]

theorem Reporting.quieted (h : Reporting view control stack) :
    Thread.quieted due ⟨n, control, stack⟩ = ⟨n, .resume .done, beneath stack⟩ := by
  cases hr : Thread.isReporting (⟨n, control, stack⟩ : Thread M E K H) with
  | true => simp only [Thread.quieted, hr, Bool.true_or, if_true]
  | false =>
    have ha : Thread.Apart ⟨n, control, stack⟩ := h.apart hr
    cases h with
    | delivers => exact ha.control.elim
    | records _ hf =>
      have hnot : Frame.reports _ = false := hr
      rw [hf] at hnot
      cases hnot
    | returns => rw [ha.quieted nofun, beneath_eq ha.stack]

/-- Reports hold no points. -/
theorem any_beneath {holds : Frame M E K H → Bool} (hf : ∀ frame, frame.reports → holds frame = false) :
    (beneath stack).any holds = stack.any holds := by
  induction stack with
  | nil => rfl
  | cons frame stack ih =>
    cases hr : frame.reports with
    | true => rw [beneath_cons hr, ih, List.any_cons, hf frame hr, Bool.false_or]
    | false => simp [beneath, hr]

theorem Thread.quieted_holdsPoint : (thread.quieted due).holdsPoint p = thread.holdsPoint p := by
  unfold quieted
  split
  · rename_i h
    have hstack : (beneath thread.stack).any (Frame.holdsPoint p) =
        thread.stack.any (Frame.holdsPoint p) := by
      apply any_beneath
      intro frame hf
      cases frame <;> first | rfl | cases hf
    have hcontrol : thread.control.holdsPoint p = false := by
      obtain ⟨id, control, stack⟩ := thread
      cases control <;> first | rfl | simp [isReporting, Control.isReport] at h
    rw [holdsPoint, holdsPoint, hstack, hcontrol]
    rfl
  · rfl

theorem Thread.quieted_of_isOver (h : thread.isOver) : thread.quieted due = thread := by
  apply (Thread.isBare_of_isOver h).apart.quieted
  obtain ⟨id, control, stack⟩ := thread
  cases stack <;> cases control <;> simp_all [isOver, Control.isReport]

theorem Thread.Begins.quieted (h : thread.Begins) : thread.quieted due = thread := by
  apply h.apart.quieted
  cases h with
  | bare h =>
    obtain ⟨id, control, stack⟩ := thread
    cases control <;> cases stack <;> first | exact h.elim | exact nofun
  | _ => exact nofun

theorem Thread.Heard.quieted_isOver (h : thread.Heard view) :
    (thread.quieted due).isOver = thread.isOver := by
  cases hover : thread.isOver with
  | true => rw [quieted_of_isOver hover, hover]
  | false =>
    unfold quieted
    split
    · rename_i hq
      -- something stands beneath every report
      have hne : beneath thread.stack ≠ [] := by
        rcases h with ha | hr
        · rw [beneath_eq ha.stack]
          obtain ⟨id, control, stack⟩ := thread
          rw [ha.not_reporting, Bool.false_or, Bool.and_eq_true] at hq
          cases control with
          | act => exact ha.control
          | _ => cases hq.2
        · exact hr.bears.ne_nil
      obtain ⟨frame, rest, heq⟩ := List.exists_cons_of_ne_nil hne
      simp [isOver, heq]
    · exact hover

/-! ## Exchanges -/

namespace World

/-- The exchange with its threads quieted; the client's state and the number of the next diagnostic may
be others. -/
def quieted (due : List Nat) (f : H → H) (g : Nat → Nat) (w : World M E K H) : World M E K H :=
  { w with host := f w.host, nextSeq := g w.nextSeq, threads := w.threads.map (Thread.quieted due) }

end World

def Recast.quieting (due : List Nat) (f : H → H) (g : Nat → Nat) : Recast M E K H where
  host := f
  seq := g
  answers _ := id
  thread := Thread.quieted due
  thread_id _ := Thread.quieted_id
  thread_begins _ h := h.quieted

theorem World.quieted_eq : w.quieted due f g = w.recast (.quieting due f g) := by
  have htasks : w.tasks.mapIdx (Recast.quieting due f g : Recast M E K H).taskAt = w.tasks :=
    recast_tasks fun _ => rfl
  simp only [quieted, recast, htasks]
  rfl

theorem Recast.Suits.quieting (hh : ∀ thread ∈ w.threads, thread.Heard view) :
    (Recast.quieting due f g).Suits w :=
  ⟨fun _ _ _ => Thread.quieted_holdsPoint, fun thread hthread => (hh thread hthread).quieted_isOver,
    fun _ _ => rfl⟩

end Exchange
