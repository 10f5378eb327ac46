import Exchange.Proofs.Refusal

/-!
Runs without some of the registrations that are refused. Whoever ignores what comes back from such a call goes
on without making it. Step by step the exchange is that of the run in which the calls are made, and no
callback, no point, no call and no other diagnostic tells the two apart.
-/

namespace Exchange
set_option autoImplicit false

variable {M E K H V : Type} {client : Client M E K H} {start u w w' : World M E K H} {t n p met : Nat}
  {thread : Thread M E K H}
variable {control : Control M E K H} {stack rest : List (Frame M E K H)} {m : Move M E K H}
variable {trail : List (Moment M E K H)} {moment : Moment M E K H} {view : H → V}
variable {chosen : Nat → Bool} {within : List Nat}

/-! ## Calls that are not made -/

/-- A run in which chosen registrations are not made that would be refused: the caller, who ignores what comes
back, goes on without. They are counted, those that are made and those that are not. -/
inductive Forgoing (client : Client M E K H) (chosen : Nat → Bool) (start : World M E K H) :
    Nat → List (Moment M E K H) → World M E K H → Prop
  | refl : Forgoing client chosen start 0 [] start
  | step {met : Nat} {trail : List (Moment M E K H)} {w w' : World M E K H} {t : Nat}
      {thread : Thread M E K H} : Forgoing client chosen start met trail w → w.thread? t = some thread →
      (Moment.isMisplaced ⟨w, thread⟩ && chosen met) = false → w.step client t = some w' →
      Forgoing client chosen start (met + if Moment.isMisplaced ⟨w, thread⟩ then 1 else 0)
        (trail ++ [⟨w, thread⟩]) w'
  | forgoes {met : Nat} {trail : List (Moment M E K H)} {w : World M E K H} {t : Nat} {op : Op M E K}
      {next : Reply M K → Code M E K H (Reply M K)} {rest : List (Frame M E K H)} :
      Forgoing client chosen start met trail w →
      w.thread? t = some ⟨t, .perform op, .caller next :: rest⟩ →
      Moment.isMisplaced ⟨w, ⟨t, .perform op, .caller next :: rest⟩⟩ → chosen met →
      (∀ reply, next reply = next .done) →
      Forgoing client chosen start (met + 1) trail (w.put t (.eval (next .done)) rest)
  | between {met : Nat} {trail : List (Moment M E K H)} {w w' : World M E K H} :
      Forgoing client chosen start met trail w → Between client w w' →
      Forgoing client chosen start met trail w'

theorem Forgoing.step_other (run : Forgoing client chosen start met trail w) (ht : w.thread? t = some thread)
    (hm : Moment.isMisplaced ⟨w, thread⟩ = false) (hs : w.step client t = some w') :
    Forgoing client chosen start met (trail ++ [⟨w, thread⟩]) w' := by
  have hstep := run.step ht (by rw [hm, Bool.false_and]) hs
  rwa [hm, if_neg Bool.false_ne_true, Nat.add_zero] at hstep

theorem Reports.forgoing : Reports client (Forgoing client chosen start met) := by
  intro trail v v' t thread run ht hr hs
  exact run.step_other ht (Moment.not_isMisplaced_of_reporting hr) hs

/-- Something comes back to code. -/
def Thread.isAnswered (thread : Thread M E K H) : Bool :=
  match thread.control, thread.stack with
  | .resume _, .caller _ :: _ => true
  | _, _ => false

/-- What is left of a trail without the chosen calls, the threads that are in the middle of one, and how many
registrations have been met that are refused. -/
structure Removal (M E K H : Type) where
  within : List Nat := []
  met : Nat := 0
  kept : List (Moment M E K H) := []

/-- A call that is removed lasts until it comes back to its caller. -/
def Removal.next (chosen : Nat → Bool) (removal : Removal M E K H) (m : Moment M E K H) : Removal M E K H :=
  if removal.within.contains m.thread.id then
    { removal with
      within := if m.thread.isAnswered then removal.within.filter (· ≠ m.thread.id) else removal.within }
  else if m.isMisplaced && chosen removal.met then
    { removal with within := m.thread.id :: removal.within, met := removal.met + 1 }
  else
    { removal with
      met := removal.met + if m.isMisplaced then 1 else 0
      kept := removal.kept ++ [m] }

def removal (chosen : Nat → Bool) (trail : List (Moment M E K H)) : Removal M E K H :=
  trail.foldl (Removal.next chosen) {}

/-- The trail without the chosen calls. -/
def remaining (chosen : Nat → Bool) (trail : List (Moment M E K H)) : List (Moment M E K H) :=
  (removal chosen trail).kept

variable {next : Reply M K → Code M E K H (Reply M K)}

theorem removal_snoc : removal chosen (trail ++ [moment]) = (removal chosen trail).next chosen moment := by
  simp [removal]

theorem removal_of_within (moment : Moment M E K H)
    (h : (removal chosen trail).within.contains moment.thread.id) :
    removal chosen (trail ++ [moment]) =
      ⟨if moment.thread.isAnswered then (removal chosen trail).within.filter (· ≠ moment.thread.id)
        else (removal chosen trail).within, (removal chosen trail).met, remaining chosen trail⟩ := by
  rw [removal_snoc, Removal.next, if_pos h]
  rfl

theorem removal_of_chosen (moment : Moment M E K H)
    (h : (removal chosen trail).within.contains moment.thread.id = false)
    (hm : (moment.isMisplaced && chosen (removal chosen trail).met) = true) :
    removal chosen (trail ++ [moment]) =
      ⟨moment.thread.id :: (removal chosen trail).within, (removal chosen trail).met + 1,
        remaining chosen trail⟩ := by
  rw [removal_snoc, Removal.next, h, if_neg Bool.false_ne_true, if_pos hm]
  rfl

theorem removal_of_other (moment : Moment M E K H)
    (h : (removal chosen trail).within.contains moment.thread.id = false)
    (hm : (moment.isMisplaced && chosen (removal chosen trail).met) = false) :
    removal chosen (trail ++ [moment]) =
      ⟨(removal chosen trail).within, (removal chosen trail).met + if moment.isMisplaced then 1 else 0,
        remaining chosen trail ++ [moment]⟩ := by
  rw [removal_snoc, Removal.next, h, hm, if_neg Bool.false_ne_true, if_neg Bool.false_ne_true]
  rfl

/-! ## Threads -/

/-- The thread as it is where the calls are not made: reports look as if they were over, and whoever is in
the middle of such a call looks as if there were none. -/
def Thread.excused (within : List Nat) (thread : Thread M E K H) : Thread M E K H :=
  match within.contains thread.id, (thread.quieted []).stack with
  | true, .acts _ _ _ :: .caller next :: rest => ⟨thread.id, .eval (next .done), rest⟩
  | true, .caller next :: rest => ⟨thread.id, .eval (next .done), rest⟩
  | _, _ => thread.quieted []

theorem Thread.excused_id : (thread.excused within).id = thread.id := by
  unfold excused
  split <;> simp

theorem Thread.excused_outside (h : within.contains thread.id = false) :
    thread.excused within = thread.quieted [] := by
  unfold excused
  rw [h]

theorem Thread.excused_congr {within' : List Nat}
    (h : within'.contains thread.id = within.contains thread.id) :
    thread.excused within' = thread.excused within := by
  unfold excused
  rw [h]

theorem Thread.excused_of_beneath (hn : within.contains n)
    (hquiet : Thread.quieted [] ⟨n, control, stack⟩ = thread)
    (hbeneath : thread.stack = .caller next :: rest ∨
      ∃ p todo answer, thread.stack = .acts p todo answer :: .caller next :: rest) :
    Thread.excused within ⟨n, control, stack⟩ = ⟨n, .eval (next .done), rest⟩ := by
  rcases hbeneath with hcaller | ⟨p, todo, answer, hacts⟩
  · simp only [Thread.excused, hquiet, hcaller, hn]
  · simp only [Thread.excused, hquiet, hacts, hn]

theorem Thread.Begins.excused (h : thread.Begins) : thread.excused within = thread := by
  have hquiet : thread.quieted [] = thread := h.quieted
  unfold Thread.excused
  rw [hquiet]
  cases h with
  | bare hbare =>
    rw [hbare.stack_eq]
    cases within.contains thread.id <;> rfl
  | turn => cases within.contains _ <;> rfl
  | closing => cases within.contains _ <;> rfl

/-- The thread is in the middle of a call that is refused and that is not made where it is excused. -/
structure Forgone (view : H → V) (next : Reply M K → Code M E K H (Reply M K)) (rest : List (Frame M E K H))
    (control : Control M E K H) (stack : List (Frame M E K H)) : Prop where
  refused : ∃ p point told, .serving p ∈ rest ∧ Refused view p point (.caller next :: rest) told control stack
  plain : Plain rest
  ignores : ∀ reply, next reply = next .done

namespace Forgone

theorem below (h : Forgone view next rest control stack) : Plain (.caller next :: rest) := by
  intro frame hframe
  rcases List.mem_cons.mp hframe with rfl | hframe
  · rfl
  · exact h.plain frame hframe

/-- Beneath its reports stands the caller, or what is left of the call above the caller. -/
theorem quieted (h : Forgone view next rest control stack) :
    ∃ control', Thread.quieted [] ⟨n, control, stack⟩ = ⟨n, control', beneath stack⟩ ∧
      (∀ q, control'.holdsPoint q = false) ∧
      (beneath stack = .caller next :: rest ∨
        ∃ p todo answer, beneath stack = .acts p todo answer :: .caller next :: rest ∧ .serving p ∈ rest) := by
  obtain ⟨p, point, told, hserves, hrefused⟩ := h.refused
  have apart {control : Control M E K H} {stack : List (Frame M E K H)} (hstack : Plain stack)
      (hcontrol : control.IsApart stack) : Thread.quieted [] ⟨n, control, stack⟩ = ⟨n, control, beneath stack⟩ := by
    have ha : Thread.Apart ⟨n, control, stack⟩ := ⟨hstack, hcontrol⟩
    rw [ha.quieted fun _ => rfl, beneath_eq hstack]
  cases hrefused with
  | refused =>
    exact ⟨_, apart h.below.acts trivial, fun _ => rfl, .inr ⟨p, _, _, beneath_eq h.below.acts, hserves⟩⟩
  | reports =>
    exact ⟨_, apart h.below.acts (List.cons_ne_nil _ _), fun _ => rfl,
      .inr ⟨p, _, _, beneath_eq h.below.acts, hserves⟩⟩
  | reporting hreporting hbeneath =>
    exact ⟨_, hreporting.quieted, fun _ => rfl, .inr ⟨p, _, _, hbeneath, hserves⟩⟩
  | answered => exact ⟨_, apart h.below trivial, fun _ => rfl, .inl (beneath_eq h.below)⟩

theorem excused (h : Forgone view next rest control stack) (hn : within.contains n) :
    Thread.excused within ⟨n, control, stack⟩ = ⟨n, .eval (next .done), rest⟩ := by
  obtain ⟨control', hquiet, -, hbeneath⟩ := h.quieted (n := n)
  refine Thread.excused_of_beneath hn hquiet (hbeneath.imp_right ?_)
  rintro ⟨p, todo, answer, hacts, -⟩
  exact ⟨p, todo, answer, hacts⟩

/-- What the call holds is held by the pass as well. -/
theorem holdsPoint (h : Forgone view next rest control stack) (q : Nat) :
    Thread.holdsPoint q ⟨n, .eval (next .done), rest⟩ = Thread.holdsPoint q ⟨n, control, stack⟩ := by
  obtain ⟨control', hquiet, hcontrol, hbeneath⟩ := h.quieted (n := n)
  have hholds : (Thread.quieted [] ⟨n, control, stack⟩).holdsPoint q =
      Thread.holdsPoint q ⟨n, control, stack⟩ := Thread.quieted_holdsPoint
  rw [← hholds, hquiet]
  simp only [Thread.holdsPoint, hcontrol, Bool.false_or]
  rcases hbeneath with hcaller | ⟨p, todo, answer, hacts, hserves⟩
  · rw [hcaller]
    rfl
  · rw [hacts]
    by_cases hq : p = q
    · subst hq
      have hrest : rest.any (Frame.holdsPoint p) :=
        List.any_eq_true.mpr ⟨_, hserves, by simp [Frame.holdsPoint]⟩
      simp [Control.holdsPoint, Frame.holdsPoint, hrest]
    · simp [Control.holdsPoint, Frame.holdsPoint, hq]

theorem ne_nil (h : Forgone view next rest control stack) : stack ≠ [] := by
  obtain ⟨p, point, told, -, hrefused⟩ := h.refused
  exact hrefused.ne_nil (List.cons_ne_nil _ _)

theorem isOver (h : Forgone view next rest control stack) :
    Thread.isOver ⟨n, .eval (next .done), rest⟩ = Thread.isOver ⟨n, control, stack⟩ := by
  obtain ⟨frame, below, rfl⟩ := List.exists_cons_of_ne_nil h.ne_nil
  cases rest <;> rfl

theorem not_isMisplaced (h : Forgone view next rest control stack) :
    Moment.isMisplaced ⟨w, ⟨n, control, stack⟩⟩ = false := by
  obtain ⟨p, point, told, -, hrefused⟩ := h.refused
  exact hrefused.not_isMisplaced

theorem silent (h : Forgone view next rest control stack) :
    (∀ q, invocations q [⟨w, ⟨n, control, stack⟩⟩] = []) ∧ callbacks [⟨w, ⟨n, control, stack⟩⟩] = [] := by
  obtain ⟨p, point, told, -, hrefused⟩ := h.refused
  obtain ⟨hinvocations, hcallbacks, -⟩ := hrefused.tells (w := w) (n := n)
  exact ⟨hinvocations, hcallbacks⟩

/-- It is in the middle of a pass. -/
theorem not_outermost (h : Forgone view next rest control stack) :
    Moment.isOutermost ⟨w, ⟨n, control, stack⟩⟩ = false := by
  obtain ⟨p, -, -, hserves, -⟩ := h.refused
  obtain ⟨-, -, -, hbeneath⟩ := h.quieted (n := n)
  have hmem : Frame.serving p ∈ beneath stack := by
    rcases hbeneath with hcaller | ⟨q, todo, answer, hacts, -⟩
    · rw [hcaller]
      exact List.mem_cons_of_mem _ hserves
    · rw [hacts]
      exact List.mem_cons_of_mem _ (List.mem_cons_of_mem _ hserves)
  exact List.all_eq_false.mpr ⟨_, (List.dropWhile_sublist _).subset hmem, by simp⟩

/-- What comes back is the refusal. -/
theorem answered (h : Forgone view next rest control stack)
    (ha : Thread.isAnswered (⟨n, control, stack⟩ : Thread M E K H)) :
    control = .resume refusal ∧ stack = .caller next :: rest := by
  obtain ⟨p, point, told, -, hrefused⟩ := h.refused
  cases hrefused with
  | reporting hreporting hbeneath =>
    unfold Thread.isAnswered at ha
    split at ha
    · rename_i hstack
      obtain rfl : stack = _ := hstack
      cases hbeneath
    · cases ha
  | answered => exact ⟨rfl, rfl⟩
  | _ => cases ha

/-- A step before that. -/
theorem step (h : Forgone view next rest control stack) (hc : client.Records view)
    (ha : Thread.isAnswered (⟨n, control, stack⟩ : Thread M E K H) = false)
    (hm : w.move client n stack control = some m) : Forgone view next rest m.control m.stack ∧
      ∃ host, m.world = { w with host, nextSeq := w.nextSeq + if control.isReport then 1 else 0 } ∧
        view host = view w.host := by
  obtain ⟨p, point, told, hserves, hrefused⟩ := h.refused
  have hback : ¬(stack = .caller next :: rest ∧ control.IsReturn) := by
    rintro ⟨rfl, -⟩
    rw [(hrefused.of_back h.below).1] at ha
    cases ha
  obtain ⟨hgoes, hworld⟩ := hrefused.step hc h.below hback hm
  exact ⟨⟨⟨p, point, _, hserves, hgoes⟩, h.plain, h.ignores⟩, hworld⟩

end Forgone

end Exchange
