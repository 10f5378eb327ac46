import Exchange.Proofs.Numbering
import Exchange.Proofs.Stretch
import Exchange.Proofs.Telling

/-!
A set of sinks at work. The thread that has handed it a diagnostic hands that to one member after the other,
and what the members do stands above the set's frame; a member has come back when the frame is the top one
again. So what a set has handed over, and what it has still to do, is known at each step.
-/

namespace Exchange
set_option autoImplicit false

variable {M E K H : Type} {client : Client M E K H} {start w : World M E K H} {n : Nat}
variable {control : Control M E K H} {stack under below : List (Frame M E K H)} {m : Move M E K H}
variable {trail own : List (Moment M E K H)}
variable {members : List (Sink K)} {sink : Sink K} {diagnostic report : Diagnostic} {place culprit : Nat}

/-! ## The handing over to one member -/

/-- The frame that a sink which has been handed a diagnostic leaves on the stack. -/
def Sink.Leaves : Sink K → Frame M E K H → Prop
  | .client _ _, .receiving => True
  | .set _, .fanOut _ none _ _ => True
  | _, _ => False

/-- The thread is about to hand a diagnostic to the sink, or has done so. -/
inductive Handing (sink : Sink K) (diagnostic : Diagnostic) (under : List (Frame M E K H)) :
    Bool → Control M E K H → List (Frame M E K H) → Prop
  | about : Handing sink diagnostic under false (.deliver sink diagnostic) under
  | amid {control : Control M E K H} (above : List (Frame M E K H)) {frame : Frame M E K H} :
      sink.Leaves frame → Handing sink diagnostic under true control (above ++ frame :: under)

/-- The sink has come back, with a panic if it is the client's. -/
def Sink.Back (sink : Sink K) : Control M E K H → Prop
  | .resume _ => True
  | .unwind _ => ∃ name code, sink = .client name code
  | _ => False

theorem Sink.Back.isReturn (h : sink.Back control) : control.IsReturn := by
  cases control <;> trivial

namespace Handing
variable {told : Bool}

theorem top {frame : Frame M E K H} (h : sink.Leaves frame) :
    Handing sink diagnostic under true control (frame :: under) :=
  .amid [] h

/-- A step with nothing but the sink's frame above the set. -/
theorem step_top {frame : Frame M E K H} (h : sink.Leaves frame) (hr : control.IsReturn)
    (hm : w.move client n (frame :: under) control = some m) :
    Handing sink diagnostic under true m.control m.stack ∨ m.stack = under ∧ sink.Back m.control := by
  cases sink with
  | recorder => exact h.elim
  | client name code =>
    cases frame <;> try exact h.elim
    cases control <;> try exact hr.elim
    · cases hm
      exact .inr ⟨rfl, trivial⟩
    · cases hm
      exact .inr ⟨rfl, name, code, rfl⟩
  | set members =>
    cases frame <;> try exact h.elim
    rename_i members' skip next handed
    cases skip with
    | some => exact h.elim
    | none =>
      cases control <;> try exact hr.elim
      · simp only [World.move, World.resume] at hm
        split at hm
        · cases hm
          exact .inr ⟨rfl, trivial⟩
        · cases hm
          exact .inl (top trivial)
      · simp only [World.move, World.unwind] at hm
        split at hm
        · cases hm
          exact .inl (top trivial)
        · cases hm
          exact .inl (.amid [_] trivial)

/-- As long as the sink has not come back the set waits below. -/
theorem step (h : Handing sink diagnostic under told control stack) (hs : Seated stack)
    (hm : w.move client n stack control = some m) :
    Handing sink diagnostic under true m.control m.stack ∨ m.stack = under ∧ sink.Back m.control := by
  cases h with
  | about =>
    cases hm
    cases sink with
    | client name code => exact .inl (top trivial)
    | recorder => exact .inr ⟨rfl, trivial⟩
    | set members => exact .inl (top trivial)
  | @amid _ above frame hleaves =>
    obtain ⟨gone, come, rest, shape⟩ := (World.move_stride hm).shape hs
    rcases shape.popped with rfl | ⟨hreturn, top, rfl⟩
    · obtain rfl : _ = rest := shape.before
      rw [shape.after, ← List.append_assoc]
      exact .inl (.amid _ hleaves)
    · cases above with
      | nil => exact step_top hleaves hreturn hm
      | cons first above =>
        obtain ⟨rfl, rfl⟩ := List.cons.inj shape.before
        rw [shape.after, List.append_eq, ← List.append_assoc]
        exact .inl (.amid _ hleaves)

end Handing

/-! ## The steps of a set -/

/-- The moment belongs to the set that has that many frames below its own. -/
def Moment.isOfSet (depth : Nat) (m : Moment M E K H) : Bool :=
  match m.thread.stack with
  | .fanOut _ none _ _ :: rest => rest.length = depth
  | .fanOut _ (some _) _ _ :: rest => rest.length = depth + 1
  | _ => false

/-- What the step hands to a member. -/
def Moment.handover? (m : Moment M E K H) : Option (Handover K) :=
  match m.thread.control, m.thread.stack with
  | .deliver sink diagnostic, .fanOut _ _ next _ :: _ => some ((sink, next - 1), diagnostic)
  | _, _ => none

/-- The member that has panicked when it was handed the set's diagnostic. -/
def Moment.culprit? (m : Moment M E K H) : Option (Nat × Payload × Nat) :=
  match m.thread.control, m.thread.stack with
  | .unwind payload, .fanOut _ none next _ :: _ => some (next - 1, payload, m.world.nextSeq)
  | _, _ => none

/-- The steps that the thread takes for the set above the frames `below`. -/
def setMoments (n : Nat) (below : List (Frame M E K H)) (trail : List (Moment M E K H)) :
    List (Moment M E K H) :=
  (ownMoments n trail).filter (Moment.isOfSet below.length)

/-- What a set has handed over, who has panicked and what it has reported. Only the client's own sinks
panic. -/
structure Relayed (members : List (Sink K)) (diagnostic : Diagnostic) (calls : List (Handover K))
    (panics : List (Option (Payload × Nat))) (own : List (Moment M E K H)) : Prop where
  handed : own.filterMap Moment.handover? = calls
  panicked : own.filterMap Moment.culprit? = culprits panics
  reported : created own = reportsOf members diagnostic panics
  guarded : ∀ (place : Nat) (panic : Payload × Nat), panics[place]? = some (some panic) →
    ∃ name code, members[place]? = some (Sink.client name code)

/-- How far a set has come, with what it has handed over and who has panicked. -/
inductive Relaying (members : List (Sink K)) (diagnostic : Diagnostic) (below : List (Frame M E K H)) :
    List (Handover K) → List (Option (Payload × Nat)) → Control M E K H → List (Frame M E K H) → Prop
  | begins : Relaying members diagnostic below [] [] (.deliver (.set members) diagnostic) below
  | ready {panics : List (Option (Payload × Nat))} {reply : Reply M K} :
      panics.length ≤ members.length →
      Relaying members diagnostic below (handovers members diagnostic panics) panics (.resume reply)
        (.fanOut members none panics.length diagnostic :: below)
  | hands {panics : List (Option (Payload × Nat))} {sink : Sink K} {told : Bool}
      {control : Control M E K H} {stack : List (Frame M E K H)} :
      members[panics.length]? = some sink →
      Handing sink diagnostic (.fanOut members none (panics.length + 1) diagnostic :: below) told control
        stack →
      Relaying members diagnostic below (handovers members diagnostic panics ++
        if told then [((sink, panics.length), diagnostic)] else []) panics control stack
  | panicked {panics : List (Option (Payload × Nat))} {name : String} {code : K} {payload : Payload} :
      members[panics.length]? = some (.client name code) →
      Relaying members diagnostic below (handovers members diagnostic panics ++
        [((.client name code, panics.length), diagnostic)]) panics (.unwind payload)
        (.fanOut members none (panics.length + 1) diagnostic :: below)
  | reports {panics : List (Option (Payload × Nat))} {sink : Sink K} {panic : Payload × Nat}
      {report : Diagnostic} {place : Nat} {control : Control M E K H} :
      members[panics.length]? = some sink → sink.panicReport? diagnostic (some panic) = some report →
      place ≤ members.length → control.IsReturn →
      Relaying members diagnostic below (handovers members diagnostic panics ++
        ((sink, panics.length), diagnostic) :: telling (members.zipIdx.take place) panics.length report)
        (panics ++ [some panic]) control (.fanOut members (some panics.length) place report ::
          .fanOut members none (panics.length + 1) diagnostic :: below)
  | tells {panics : List (Option (Payload × Nat))} {sink other : Sink K} {panic : Payload × Nat}
      {report : Diagnostic} {place : Nat} {told : Bool} {control : Control M E K H}
      {stack : List (Frame M E K H)} :
      members[panics.length]? = some sink → sink.panicReport? diagnostic (some panic) = some report →
      members[place]? = some other → place ≠ panics.length →
      Handing other report (.fanOut members (some panics.length) (place + 1) report ::
        .fanOut members none (panics.length + 1) diagnostic :: below) told control stack →
      Relaying members diagnostic below (handovers members diagnostic panics ++
        (((sink, panics.length), diagnostic) :: telling (members.zipIdx.take place) panics.length report ++
          if told then [((other, place), report)] else [])) (panics ++ [some panic]) control stack
  | finished {panics : List (Option (Payload × Nat))} : panics.length = members.length →
      Relaying members diagnostic below (handovers members diagnostic panics) panics (.resume .done) below

namespace Relayed
variable {calls : List (Handover K)} {panics : List (Option (Payload × Nat))} {depth : Nat}
  {moment : Moment M E K H}

theorem quiet (h : Relayed members diagnostic calls panics own) (moment : Moment M E K H) (depth : Nat)
    (hq : moment.isOfSet depth →
      moment.handover? = none ∧ moment.culprit? = none ∧ moment.creation? = none) :
    Relayed members diagnostic calls panics (own ++ [moment].filter (Moment.isOfSet depth)) := by
  cases hset : moment.isOfSet depth with
  | false => simpa [hset] using h
  | true =>
    obtain ⟨hhandover, hculprit, hcreation⟩ := hq hset
    rw [List.filter_cons_of_pos hset, List.filter_nil]
    exact ⟨by simp [h.handed, hhandover], by simp [h.panicked, hculprit],
      by simpa [created, hcreation] using h.reported, h.guarded⟩

theorem hands {call : Handover K} (h : Relayed members diagnostic calls panics own)
    (hset : moment.isOfSet depth) (hhandover : moment.handover? = some call)
    (hculprit : moment.culprit? = none) (hcreation : moment.creation? = none) :
    Relayed members diagnostic (calls ++ [call]) panics
      (own ++ [moment].filter (Moment.isOfSet depth)) := by
  rw [List.filter_cons_of_pos hset, List.filter_nil]
  exact ⟨by simp [h.handed, hhandover], by simp [h.panicked, hculprit],
    by simpa [created, hcreation] using h.reported, h.guarded⟩

theorem guarded_snoc {last : Option (Payload × Nat)} (h : Relayed members diagnostic calls panics own)
    (hlast : ∀ panic, last = some panic →
      ∃ name code, members[panics.length]? = some (Sink.client name code))
    (place : Nat) (panic : Payload × Nat) (hplace : (panics ++ [last])[place]? = some (some panic)) :
    ∃ name code, members[place]? = some (Sink.client name code) := by
  rcases Nat.lt_trichotomy place panics.length with hlt | rfl | hgt
  · rw [List.getElem?_append_left hlt] at hplace
    exact h.guarded place panic hplace
  · exact hlast panic (by simpa using hplace)
  · rw [List.getElem?_eq_none (by simp; omega)] at hplace
    cases hplace

theorem fails (h : Relayed members diagnostic calls panics own) (moment : Moment M E K H) (depth : Nat)
    {name : String} {code : K} (panic : Payload × Nat) (hsink : members[panics.length]? = some (.client name code))
    (hset : moment.isOfSet depth) (hhandover : moment.handover? = none)
    (hculprit : moment.culprit? = some (panics.length, panic))
    (hcreation : moment.creation? = (Sink.client name code).panicReport? diagnostic (some panic)) :
    Relayed members diagnostic calls (panics ++ [some panic])
      (own ++ [moment].filter (Moment.isOfSet depth)) := by
  rw [List.filter_cons_of_pos hset, List.filter_nil]
  refine ⟨by simp [h.handed, hhandover], ?_, ?_, ?_⟩
  · rw [List.filterMap_append, h.panicked, culprits_snoc]
    simp [hculprit]
  · rw [created, List.filterMap_append, ← created, h.reported, reportsOf_snoc hsink, ← hcreation]
    cases hreport : moment.creation? <;> simp [hreport]
  · exact h.guarded_snoc fun _ _ => ⟨name, code, hsink⟩

theorem unharmed (h : Relayed members diagnostic calls panics own)
    (hsink : members[panics.length]? = some sink) :
    Relayed members diagnostic calls (panics ++ [none]) own := by
  refine ⟨h.handed, ?_, ?_, ?_⟩
  · rw [h.panicked, culprits_snoc]
    simp
  · rw [h.reported, reportsOf_snoc hsink, panicReport?_none]
    simp
  · exact h.guarded_snoc fun _ hpanic => by cases hpanic

end Relayed

theorem Moment.isOfSet_below {thread : Thread M E K H} (h : thread.stack = below) :
    Moment.isOfSet below.length ⟨w, thread⟩ = false := by
  subst h
  unfold isOfSet
  split <;> rename_i hstack
  · simp [show thread.stack = _ from hstack]
  · simp [show thread.stack = _ from hstack]
    omega
  · rfl

/-- What a member is in the middle of is not the set's. -/
theorem Handing.not_isOfSet {depth : Nat} (h : Handing sink diagnostic under true control stack)
    (hunder : depth < under.length) : Moment.isOfSet depth ⟨w, ⟨n, control, stack⟩⟩ = false := by
  cases h with
  | @amid _ above frame hleaves =>
    cases above with
    | nil =>
      cases sink <;> cases frame <;> try exact hleaves.elim
      · rfl
      · rename_i skip _ _
        cases skip with
        | none => simp [Moment.isOfSet, Nat.ne_of_gt hunder]
        | some => exact hleaves.elim
    | cons first above =>
      cases first <;> try rfl
      rename_i skip _ _
      cases skip <;> simp [Moment.isOfSet] <;> omega

/-- When a member is done with, the set is ready for the next one. -/
theorem Relaying.next (diagnostic : Diagnostic) (below : List (Frame M E K H))
    {panics : List (Option (Payload × Nat))} (panic : Option (Payload × Nat))
    (hsink : members[panics.length]? = some sink) (reply : Reply M K) :
    Relaying members diagnostic below
      (handovers members diagnostic panics ++ handoversOf members diagnostic (sink, panics.length) panic)
      (panics ++ [panic]) (.resume reply)
      ((.fanOut members none (panics.length + 1) diagnostic : Frame M E K H) :: below) := by
  have hplace : panics.length < members.length := (List.getElem?_eq_some_iff.mp hsink).1
  have h : Relaying members diagnostic below (handovers members diagnostic (panics ++ [panic]))
      (panics ++ [panic]) (.resume reply)
      ((.fanOut members none (panics ++ [panic]).length diagnostic : Frame M E K H) :: below) :=
    .ready (by simpa)
  simpa [handovers_snoc hsink] using h

/-- A member is handed the diagnostic in the first step for it; what it does then is not the set's. -/
theorem Relayed.handing {calls : List (Handover K)} {panics : List (Option (Payload × Nat))}
    {told : Bool} {skip : Option Nat} {handed : Diagnostic} {rest : List (Frame M E K H)}
    (h : Relayed members diagnostic (calls ++ if told then [((sink, place), handed)] else []) panics own)
    (depth : Nat)
    (hhanding : Handing sink handed (.fanOut members skip (place + 1) handed :: rest) told control stack)
    (hset : ∀ control : Control M E K H,
      Moment.isOfSet depth ⟨w, ⟨n, control, .fanOut members skip (place + 1) handed :: rest⟩⟩) :
    Relayed members diagnostic (calls ++ [((sink, place), handed)]) panics
      (own ++ [(⟨w, ⟨n, control, stack⟩⟩ : Moment M E K H)].filter (Moment.isOfSet depth)) := by
  cases told with
  | false =>
    cases hhanding
    simp only [Bool.false_eq_true, if_false, List.append_nil] at h
    exact h.hands (hset _) rfl rfl rfl
  | true =>
    have hdepth : depth < (Frame.fanOut members skip (place + 1) handed :: rest).length := by
      have hset := hset (.resume .done)
      cases skip <;> simp [Moment.isOfSet] at hset ⊢ <;> omega
    apply h.quiet
    intro hset
    rw [hhanding.not_isOfSet hdepth] at hset
    cases hset

/-- Each step of the thread takes the set on, until it is through. -/
theorem Relaying.step {calls : List (Handover K)} {panics : List (Option (Payload × Nat))}
    (h : Relaying members diagnostic below calls panics control stack)
    (hrelayed : Relayed members diagnostic calls panics own)
    (hthrough : ¬(stack = below ∧ control.IsReturn)) (hs : Seated stack)
    (hm : w.move client n stack control = some m) :
    ∃ calls' panics', Relaying members diagnostic below calls' panics' m.control m.stack ∧
      Relayed members diagnostic calls' panics'
        (own ++ [(⟨w, ⟨n, control, stack⟩⟩ : Moment M E K H)].filter (Moment.isOfSet below.length)) := by
  cases h with
  | begins =>
    cases hm
    have hquiet := hrelayed.quiet ⟨w, ⟨n, .deliver (.set members) diagnostic, stack⟩⟩ stack.length
      (by simp [Moment.isOfSet_below])
    refine ⟨[], [], ?_, hquiet⟩
    have h : Relaying members diagnostic stack (handovers members diagnostic []) [] (.resume .done)
        (.fanOut members none 0 diagnostic :: stack) := .ready (Nat.zero_le _)
    rwa [handovers_nil] at h
  | @ready panics reply hlength =>
    have hquiet := hrelayed.quiet ⟨w, ⟨n, .resume reply, .fanOut members none panics.length diagnostic :: below⟩⟩
      below.length fun _ => ⟨rfl, rfl, rfl⟩
    refine ⟨_, panics, ?_, hquiet⟩
    simp only [World.move, World.resume] at hm
    split at hm
    · rename_i hnone
      cases hm
      exact .finished (Nat.le_antisymm hlength (List.getElem?_eq_none_iff.mp hnone))
    · rename_i sink hsink
      cases hm
      have h : Relaying members diagnostic below _ panics (.deliver sink diagnostic)
          (.fanOut members none (panics.length + 1) diagnostic :: below) := .hands hsink .about
      simpa using h
  | @hands panics sink told _ _ hsink hhanding =>
    have hhanded := hrelayed.handing below.length (w := w) (n := n) hhanding
      (by simp [Moment.isOfSet])
    rcases hhanding.step hs hm with hmore | ⟨hstack, hback⟩
    · exact ⟨_, panics, .hands hsink hmore, hhanded⟩
    · obtain ⟨world, control', stack'⟩ := m
      obtain rfl : stack' = _ := hstack
      cases control' with
      | resume reply =>
        have hnext := Relaying.next diagnostic below none hsink reply
        rw [handoversOf_none] at hnext
        exact ⟨_, panics ++ [none], hnext, hhanded.unharmed hsink⟩
      | unwind payload =>
        obtain ⟨name, code, rfl⟩ := hback
        exact ⟨_, panics, .panicked hsink, hhanded⟩
      | _ => exact hback.elim
  | @panicked panics name code payload hsink =>
    let panic := (payload, w.nextSeq)
    have hfails := hrelayed.fails
      ⟨w, ⟨n, .unwind payload, .fanOut members none (panics.length + 1) diagnostic :: below⟩⟩ below.length panic
      hsink (by simp [Moment.isOfSet]) rfl rfl (by simp [Moment.creation?, Sink.panicReport?, hsink, panic])
    refine ⟨_, panics ++ [some panic], ?_, hfails⟩
    simp only [World.move, World.unwind] at hm
    split at hm
    · rename_i hkind
      cases hm
      have hnext := Relaying.next diagnostic below (some panic) hsink .done
      simp only [handoversOf, Sink.panicReport?, hkind, if_true, Option.toList_none, List.flatMap_nil] at hnext
      exact hnext
    · rename_i hkind
      let report : Diagnostic := ⟨.sinkPanicked, some name, some payload.info, w.nextSeq⟩
      have hreport : (Sink.client name code).panicReport? diagnostic (some panic) = some report := by
        simp [Sink.panicReport?, hkind, report, panic, Sink.name]
      simp only [Nat.add_sub_cancel, hsink, Option.map_some, Option.getD_some] at hm
      cases hm
      have hreports : Relaying members diagnostic below _ _ (.resume .done)
          (.fanOut members (some panics.length) 0 report ::
            .fanOut members none (panics.length + 1) diagnostic :: below) :=
        .reports hsink hreport (Nat.zero_le _) trivial
      exact hreports
  | @reports panics sink panic report place _ hsink hreport hplace hreturn =>
    have hkind := (Sink.kind_of_panicReport? hreport).2
    have hquiet := hrelayed.quiet ⟨w, ⟨n, control, .fanOut members (some panics.length) place report ::
      .fanOut members none (panics.length + 1) diagnostic :: below⟩⟩ below.length fun _ => by
      cases control <;> try exact hreturn.elim
      · exact ⟨rfl, rfl, rfl⟩
      · exact ⟨rfl, rfl, by simp [Moment.creation?, hkind]⟩
    refine ⟨_, _, ?_, hquiet⟩
    cases control <;> try exact hreturn.elim
    · simp only [World.move, World.resume] at hm
      split at hm
      · rename_i hnone
        cases hm
        have hall : members.zipIdx.take place = members.zipIdx :=
          List.take_of_length_le (by simpa using hnone)
        have hnext := Relaying.next diagnostic below (some panic) hsink .done
        rw [handoversOf, hreport, Option.toList_some, List.flatMap_singleton] at hnext
        rw [hall]
        exact hnext
      · rename_i other hother
        split at hm
        · rename_i hculprit
          cases hm
          have hreports : Relaying members diagnostic below _ _ (.resume .done)
              (.fanOut members (some panics.length) (place + 1) report ::
                .fanOut members none (panics.length + 1) diagnostic :: below) :=
            .reports hsink hreport (List.getElem?_eq_some_iff.mp hother).1 trivial
          rw [telling_snoc hother, if_pos (Option.some.inj hculprit).symm, List.append_nil] at hreports
          exact hreports
        · rename_i hculprit
          cases hm
          have htells : Relaying members diagnostic below _ _ (.deliver other report)
              (.fanOut members (some panics.length) (place + 1) report ::
                .fanOut members none (panics.length + 1) diagnostic :: below) :=
            .tells hsink hreport hother (fun h => hculprit (congrArg some h.symm)) .about
          simpa using htells
    · simp only [World.move, World.unwind, hkind, if_true] at hm
      cases hm
      exact .reports hsink hreport hplace trivial
  | @tells panics sink other panic report place told _ _ hsink hreport hother hne hhanding =>
    rw [← List.append_assoc] at hrelayed
    have hhanded := hrelayed.handing below.length (w := w) (n := n) hhanding
      (by simp [Moment.isOfSet])
    rw [List.append_assoc] at hhanded
    refine ⟨_, _, ?_, hhanded⟩
    rcases hhanding.step hs hm with hmore | ⟨hstack, hback⟩
    · exact .tells hsink hreport hother hne hmore
    · obtain ⟨world, control', stack'⟩ := m
      obtain rfl : stack' = _ := hstack
      have hreports : Relaying members diagnostic below _ _ control'
          (.fanOut members (some panics.length) (place + 1) report ::
            .fanOut members none (panics.length + 1) diagnostic :: below) :=
        .reports hsink hreport (List.getElem?_eq_some_iff.mp hother).1 hback.isReturn
      rw [telling_snoc hother, if_neg hne] at hreports
      exact hreports
  | finished => exact absurd ⟨rfl, trivial⟩ hthrough

theorem Handing.above {told : Bool} (h : Handing sink diagnostic under told control stack) :
    ∃ above, stack = above ++ under := by
  cases h with
  | about => exact ⟨[], rfl⟩
  | @amid _ above frame => exact ⟨above ++ [frame], by simp⟩

/-- The thread is in the middle of what the set above the frames `below` does. -/
def Thread.IsWithin (members : List (Sink K)) (diagnostic : Diagnostic) (below : List (Frame M E K H))
    (thread : Thread M E K H) : Prop :=
  ∃ above next, thread.stack = above ++ .fanOut members none next diagnostic :: below

theorem Thread.IsWithin.ne_below {thread : Thread M E K H}
    (h : thread.IsWithin members diagnostic below) : thread.stack ≠ below := by
  obtain ⟨above, next, hstack⟩ := h
  rw [hstack]
  intro hbelow
  have hlength := congrArg List.length hbelow
  simp only [List.length_append, List.length_cons] at hlength
  omega

namespace Relaying
variable {calls : List (Handover K)} {panics : List (Option (Payload × Nat))}

/-- The set has not begun, or has its frame on the stack, or is through with all members. -/
theorem whereabouts (h : Relaying members diagnostic below calls panics control stack) :
    control = .deliver (.set members) diagnostic ∧ stack = below ∨
      Thread.IsWithin members diagnostic below ⟨n, control, stack⟩ ∨
      (control = .resume .done ∧ stack = below) ∧ panics.length = members.length ∧
        calls = handovers members diagnostic panics := by
  cases h with
  | begins => exact .inl ⟨rfl, rfl⟩
  | ready => exact .inr (.inl ⟨[], _, rfl⟩)
  | hands _ hhanding =>
    obtain ⟨above, rfl⟩ := hhanding.above
    exact .inr (.inl ⟨above, _, rfl⟩)
  | panicked => exact .inr (.inl ⟨[], _, rfl⟩)
  | reports => exact .inr (.inl ⟨[_], _, rfl⟩)
  | @tells panics _ _ _ report place _ _ _ _ _ _ _ hhanding =>
    obtain ⟨above, rfl⟩ := hhanding.above
    exact .inr (.inl ⟨above ++ [.fanOut members (some panics.length) (place + 1) report], panics.length + 1,
      by simp⟩)
  | finished hlength => exact .inr (.inr ⟨⟨rfl, rfl⟩, hlength, rfl⟩)

/-- What has been handed over so far is the beginning of what the set has to hand over. -/
theorem calls_prefix (h : Relaying members diagnostic below calls panics control stack) :
    ∃ last, calls <+: handovers members diagnostic (panics ++ last) ∧
      (panics ++ last).length ≤ members.length := by
  have htelling (place : Nat) {culprit : Nat} {report : Diagnostic} :
      telling (members.zipIdx.take place) culprit report <+: telling members.zipIdx culprit report :=
    ((List.take_prefix _ _).filter _).map _
  have hroom {panics : List (Option (Payload × Nat))} {sink : Sink K} (last : Option (Payload × Nat))
      (hsink : members[panics.length]? = some sink) : (panics ++ [last]).length ≤ members.length := by
    rw [List.length_append, List.length_singleton]
    exact (List.getElem?_eq_some_iff.mp hsink).1
  cases h with
  | begins => exact ⟨[], by simp, by simp⟩
  | ready hlength => exact ⟨[], by simp, by simpa⟩
  | @hands panics sink told _ _ hsink =>
    refine ⟨[none], ?_, hroom none hsink⟩
    rw [handovers_snoc hsink, handoversOf_none]
    apply (List.prefix_append_right_inj _).mpr
    cases told with
    | false => exact List.nil_prefix
    | true => exact List.prefix_rfl
  | @panicked panics name code _ hsink =>
    have hcalls : handovers members diagnostic (panics ++ [none]) =
        handovers members diagnostic panics ++ [((.client name code, panics.length), diagnostic)] := by
      rw [handovers_snoc hsink, handoversOf_none]
    exact ⟨[none], hcalls ▸ List.prefix_rfl, hroom none hsink⟩
  | reports hsink hreport =>
    refine ⟨[], ?_, by simpa only [List.append_nil] using hroom _ hsink⟩
    rw [List.append_nil, handovers_snoc hsink, handoversOf, hreport, Option.toList_some,
      List.flatMap_singleton]
    exact (List.prefix_append_right_inj _).mpr (List.cons_prefix_cons.mpr ⟨rfl, htelling _⟩)
  | @tells panics sink other panic report place told _ _ hsink hreport hother hne =>
    refine ⟨[], ?_, by simpa only [List.append_nil] using hroom _ hsink⟩
    rw [List.append_nil, handovers_snoc hsink, handoversOf, hreport, Option.toList_some,
      List.flatMap_singleton, List.cons_append]
    apply (List.prefix_append_right_inj _).mpr
    refine List.cons_prefix_cons.mpr ⟨rfl, .trans ?_ (htelling (place + 1))⟩
    rw [telling_snoc hother, if_neg hne]
    cases told with
    | false => simp
    | true => exact List.prefix_rfl
  | finished hlength => exact ⟨[], by simp, by simp [hlength]⟩

end Relaying

/-- A set is followed along a run, from where the thread is about to hand it a diagnostic. -/
theorem Run.relays (run : Run client start trail w) (hstart : start.Placed)
    (hset : start.thread? n = some ⟨n, .deliver (.set members) diagnostic, below⟩) :
    ∃ during later x thread calls panics, trail = during ++ later ∧ Run client start during x ∧
      Run client x later w ∧ x.thread? n = some thread ∧
      Relaying members diagnostic below calls panics thread.control thread.stack ∧
      Relayed members diagnostic calls panics (setMoments n below during) ∧
      ((thread.stack = below ∧ thread.control.IsReturn) ∨ later = [] ∧ x = w) := by
  let holds (own : List (Moment M E K H)) (thread : Thread M E K H) : Prop :=
    ∃ calls panics, Relaying members diagnostic below calls panics thread.control thread.stack ∧
      Relayed members diagnostic calls panics (own.filter (Moment.isOfSet below.length))
  let through (thread : Thread M E K H) : Prop := thread.stack = below ∧ thread.control.IsReturn
  have hbegin : holds [] ⟨n, .deliver (.set members) diagnostic, below⟩ :=
    ⟨[], [], .begins, rfl, rfl, by simp [created, reportsOf], by simp⟩
  have hsteps (own : List (Moment M E K H)) (v : World M E K H) (thread : Thread M E K H) (m : Move M E K H)
      (hplaced : thread.Placed) (hholds : holds own thread) (hthrough : ¬through thread)
      (hid : thread.id = n) (hm : v.move client n thread.stack thread.control = some m) :
      holds (own ++ [⟨v, thread⟩]) ⟨n, m.control, m.stack⟩ := by
    obtain ⟨id, control, stack⟩ := thread
    obtain rfl : id = n := hid
    obtain ⟨calls, panics, hrelaying, hrelayed⟩ := hholds
    obtain ⟨calls', panics', hrelaying', hrelayed'⟩ :=
      hrelaying.step hrelayed hthrough hplaced.seated hm
    rw [← List.filter_append] at hrelayed'
    exact ⟨calls', panics', hrelaying', hrelayed'⟩
  have hbusy (own : List (Moment M E K H)) (thread : Thread M E K H) (hholds : holds own thread)
      (hthrough : ¬through thread) : ¬thread.IsBare := by
    intro hbare
    obtain ⟨id, control, stack⟩ := thread
    obtain ⟨calls, panics, hrelaying, -⟩ := hholds
    rcases hrelaying.whereabouts (n := id) with ⟨rfl, rfl⟩ | ⟨above, next, hstack⟩ | ⟨⟨rfl, rfl⟩, -⟩
    · cases stack <;> exact hbare
    · have hempty := hbare.stack_eq.symm.trans hstack
      simp at hempty
    · exact hthrough ⟨rfl, trivial⟩
  obtain ⟨during, later, x, thread, heq, hduring, hlater, hthread, ⟨calls, panics, hrelaying, hrelayed⟩,
    hend⟩ := run.follow hstart holds through ⟨_, hset, hbegin⟩ hsteps hbusy
  exact ⟨during, later, x, thread, calls, panics, heq, hduring, hlater, hthread, hrelaying, hrelayed, hend⟩

end Exchange
