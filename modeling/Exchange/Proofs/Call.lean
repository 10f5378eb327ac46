import Exchange.Proofs.Discipline

/-!
Single calls, from the step that makes them until something comes back to the frames below. Of what
a call has itself to do nothing is left out: when it is back, all is done that it owed.
-/

namespace Exchange
set_option autoImplicit false

variable {M E K H : Type} {client : Client M E K H} {w w' start : World M E K H} {p t : Nat}
variable {thread : Thread M E K H} {below stack : List (Frame M E K H)} {op : Op M E K}
variable {control : Control M E K H} {during : List (Moment M E K H)} {m : Move M E K H}

/-- A reply or a panic has come back to the frames below. -/
def World.IsBack (w : World M E K H) (t : Nat) (below : List (Frame M E K H)) : Prop :=
  ∃ control, w.thread? t = some ⟨t, control, below⟩ ∧ control.IsReturn

/-- What is back has nothing left above the frames below. -/
theorem World.IsBack.not_above (h : w.IsBack t below) (above : List (Frame M E K H))
    {frame : Frame M E K H} : w.thread? t ≠ some ⟨t, control, above ++ frame :: below⟩ := by
  obtain ⟨control', hthread, -⟩ := h
  intro habove
  have hlength := congrArg (Option.map fun thread => thread.stack.length) (habove.symm.trans hthread)
  simp only [Option.map_some, List.length_append, List.length_cons, Option.some.injEq] at hlength
  omega

/-- A call of thread `t` above the frames `below`, with its moments so far. -/
inductive Call (client : Client M E K H) (t : Nat) (below : List (Frame M E K H)) (op : Op M E K)
    (start : World M E K H) : List (Moment M E K H) → World M E K H → Prop
  | made {w : World M E K H} :
      start.thread? t = some ⟨t, .perform op, below⟩ → start.step client t = some w →
      Call client t below op start [⟨start, ⟨t, .perform op, below⟩⟩] w
  | step {during : List (Moment M E K H)} {w w' : World M E K H} {n : Nat}
      {thread : Thread M E K H} :
      Call client t below op start during w → ¬w.IsBack t below → w.thread? n = some thread →
      w.step client n = some w' → Call client t below op start (during ++ [⟨w, thread⟩]) w'
  | between {during : List (Moment M E K H)} {w w' : World M E K H} :
      Call client t below op start during w → ¬w.IsBack t below → Between client w w' →
      Call client t below op start during w'

theorem Call.run (call : Call client t below op start during w) : Run client start during w := by
  induction call with
  | made ht hs => exact Run.refl.step ht hs
  | step _ _ ht hs ih => exact ih.step ht hs
  | between _ _ hb ih => exact ih.between hb

/-- As long as something of the thread stands above the frames below, a trace goes on with the call. -/
theorem Call.trace (call : Call client t below op start during w) (fuel : Nat)
    (hbusy : ∀ m ∈ (w.trace client fuel).1,
      (m.world.thread? t).all fun thread => below.length < thread.stack.length) :
    Call client t below op start (during ++ (w.trace client fuel).1) (w.trace client fuel).2 := by
  refine World.trace_induction (Call client t below op start) (¬World.IsBack · t below) Call.step fuel
    call ?_
  rintro m hm ⟨control, hthread, -⟩
  have habove := hbusy m hm
  rw [hthread] at habove
  simp at habove

/-- The call that a thread is about to make, as far as a trace follows it. -/
theorem World.call_trace (client : Client M E K H) (w : World M E K H) (fuel : Nat)
    (ht : w.thread? t = some ⟨t, .perform op, below⟩) (hstep : (w.step client t).isSome)
    (hbusy : ∀ m ∈ (((w.step client t).get hstep).trace client fuel).1,
      (m.world.thread? t).all fun thread => below.length < thread.stack.length) :
    Call client t below op w ([⟨w, ⟨t, .perform op, below⟩⟩] ++
      (((w.step client t).get hstep).trace client fuel).1)
      (((w.step client t).get hstep).trace client fuel).2 :=
  (Call.made ht (Option.some_get hstep).symm).trace fuel hbusy

/-- What holds of the thread that makes a call after the first step, and is kept by its steps until the call
is back, holds as long as the call lasts. -/
theorem Call.invariant (call : Call client t below op start during w) (hw : start.Sound)
    (hr : SinksReturn during) (holds : List (Moment M E K H) → Thread M E K H → Prop)
    (hfirst : ∀ m, start.perform client t below op = some m →
      holds [⟨start, ⟨t, .perform op, below⟩⟩] ⟨t, m.control, m.stack⟩)
    (hstride : ∀ during v control stack m, holds during ⟨t, control, stack⟩ →
      ¬(stack = below ∧ control.IsReturn) → Thread.Disciplined ⟨t, control, stack⟩ →
      (⟨t, control, stack⟩ : Thread M E K H).sinkPanics = false → Stride client v t control stack m →
      holds (during ++ [⟨v, ⟨t, control, stack⟩⟩]) ⟨t, m.control, m.stack⟩)
    (hother : ∀ during thread moment, holds during thread → moment.thread.id ≠ t →
      holds (during ++ [moment]) thread)
    (hstack : ∀ during thread, holds during thread → ¬(thread.stack = below ∧ thread.control.IsReturn) →
      thread.stack ≠ []) :
    ∃ thread, w.thread? t = some thread ∧ holds during thread := by
  induction call with
  | made ht hs =>
    obtain ⟨m, hm, hthread⟩ := World.thread?_of_step hw.orderly ht hs
    exact ⟨_, hthread, hfirst m hm⟩
  | @step during w w' n thread call hback hn hstep ih =>
    obtain ⟨hr, hlast⟩ := sinksReturn_append.mp hr
    obtain ⟨caller, hcaller, hholds⟩ := ih hr
    have hsound := call.run.sound hw hr
    have hid := World.id_of_thread? hcaller
    obtain ⟨⟨m, hm, stepped⟩, ho⟩ := World.step_stepped hsound.orderly hn hstep
    have hnot : ¬(caller.stack = below ∧ caller.control.IsReturn) := by
      rintro ⟨hstack, hreturn⟩
      exact hback ⟨caller.control, by rw [hcaller, ← hid, ← hstack], hreturn⟩
    by_cases hne : n = t
    · subst hne
      cases hn.symm.trans hcaller
      obtain ⟨id, control, stack⟩ := thread
      obtain rfl : id = n := hid
      exact ⟨_, ho.thread?_eq stepped.succession.mem_after,
        hstride during w control stack m hholds hnot (hsound.disciplined _ (World.mem_of_thread? hn))
          (hlast _ List.mem_cons_self) stepped.stride⟩
    · exact ⟨caller, stepped.keeps ho hcaller (Ne.symm hne) (hstack during caller hholds hnot),
        hother during caller _ hholds (World.id_of_thread? hn ▸ hne)⟩
  | @between during w w' call hback hb ih =>
    obtain ⟨caller, hcaller, hholds⟩ := ih hr
    obtain ⟨hinterlude, ho⟩ := World.between_interlude (call.run.sound hw hr).orderly hb
    have hnot : ¬(caller.stack = below ∧ caller.control.IsReturn) := by
      rintro ⟨hstack, hreturn⟩
      exact hback ⟨caller.control, by rw [hcaller, ← World.id_of_thread? hcaller, ← hstack],
        hreturn⟩
    exact ⟨caller, World.keeps_of_interlude hinterlude ho hcaller (hstack during caller hholds hnot),
      hholds⟩

/-- What the call of thread `t` at that depth does itself for point `p` at the moment. -/
def Moment.ownAct? (p t depth : Nat) (m : Moment M E K H) : Option (Act M E K) :=
  match m.thread with
  | ⟨n, .act due, .acts q _ _ :: stack⟩ =>
    if q = p ∧ n = t ∧ stack.length = depth then some due else none
  | _ => none

/-- What the call of thread `t` above the frames `below` does itself for point `p`. -/
def ownActs (p t : Nat) (below : List (Frame M E K H)) (during : List (Moment M E K H)) :
    List (Act M E K) :=
  during.filterMap (Moment.ownAct? p t below.length)

@[simp] theorem ownActs_append (first second : List (Moment M E K H)) :
    ownActs p t below (first ++ second) = ownActs p t below first ++ ownActs p t below second :=
  List.filterMap_append

@[simp] theorem ownActs_singleton (moment : Moment M E K H) :
    ownActs p t below [moment] = (moment.ownAct? p t below.length).toList := by
  cases h : moment.ownAct? p t below.length <;> simp [ownActs, h]

theorem Moment.ownAct?_of_id_ne {depth : Nat} (h : thread.id ≠ t) :
    Moment.ownAct? p t depth ⟨w, thread⟩ = none := by
  obtain ⟨id, control, stack⟩ := thread
  cases control <;> first | rfl | skip
  cases stack with
  | nil => rfl
  | cons frame stack => cases frame <;> simp_all [ownAct?]

/-! ## A call that is answered at once -/

theorem Call.eq_of_isBack (call : Call client t below op start during w)
    (h : ∀ w', start.step client t = some w' → w'.IsBack t below) :
    during = [⟨start, ⟨t, .perform op, below⟩⟩] ∧ w.IsBack t below := by
  induction call with
  | made _ hs => exact ⟨rfl, h _ hs⟩
  | step _ hback _ _ ih => exact absurd ih.2 hback
  | between _ hback _ ih => exact absurd ih.2 hback

/-! ## A call that owes something -/

/-- How far a thread has come with all that a call owes: what is done, and what is left in its
frame. -/
inductive Doing (p t : Nat) (below : List (Frame M E K H)) (all : List (Act M E K)) :
    List (Act M E K) → Thread M E K H → Prop
  | about {done : List (Act M E K)} {due : Act M E K} {todo : List (Act M E K)}
      {answer : Reply M K} : all = done ++ due :: todo →
      Doing p t below all done ⟨t, .act due, .acts p todo answer :: below⟩
  | amid {done todo : List (Act M E K)} {above : List (Frame M E K H)} {control : Control M E K H}
      {answer : Reply M K} : all = done ++ todo →
      (above = [] → (∀ due, control ≠ .act due) ∧ ∀ op, control ≠ .perform op) →
      Doing p t below all done ⟨t, control, above ++ .acts p todo answer :: below⟩
  | finished {control : Control M E K H} :
      control.IsReturn → Doing p t below all all ⟨t, control, below⟩

namespace Doing
variable {all done : List (Act M E K)}

theorem prefix_all (h : Doing p t below all done thread) : done <+: all := by
  cases h with
  | about hall => exact ⟨_, hall.symm⟩
  | amid hall => exact ⟨_, hall.symm⟩
  | finished => exact List.prefix_rfl

theorem ownAct?_above {frame base : Frame M E K H} {above : List (Frame M E K H)} :
    Moment.ownAct? p t below.length ⟨w, ⟨t, control, frame :: (above ++ base :: below)⟩⟩ =
      none := by
  have hlength : (above ++ base :: below).length ≠ below.length := by
    simp only [List.length_append, List.length_cons]
    omega
  cases control <;> cases frame <;> simp_all [Moment.ownAct?]

theorem ownAct?_eq_none {depth : Nat} (h : ∀ due, control ≠ .act due) :
    Moment.ownAct? p t depth ⟨w, ⟨t, control, stack⟩⟩ = none := by
  cases control <;> first | exact absurd rfl (h _) | rfl

theorem at_base {todo : List (Act M E K)} {answer : Reply M K} (hall : all = done ++ todo)
    (hquiet : (∀ due, control ≠ .act due) ∧ ∀ op, control ≠ .perform op) :
    Doing p t below all done ⟨t, control, .acts p todo answer :: below⟩ := by
  have h : Doing p t below all done ⟨t, control, [] ++ .acts p todo answer :: below⟩ :=
    .amid hall fun _ => hquiet
  exact h

theorem above_base (frames : List (Frame M E K H)) {todo : List (Act M E K)} {answer : Reply M K}
    (hall : all = done ++ todo) (hf : frames ≠ []) :
    Doing p t below all done ⟨t, control, frames ++ .acts p todo answer :: below⟩ :=
  .amid hall fun h => absurd h hf

theorem stride_base {todo : List (Act M E K)} {answer : Reply M K} (hall : all = done ++ todo)
    (hquiet : (∀ due, control ≠ .act due) ∧ ∀ op, control ≠ .perform op)
    (hstride : Stride client w t control (.acts p todo answer :: below) m)
    (hd : Thread.Disciplined ⟨t, control, .acts p todo answer :: below⟩)
    (hdue : ∀ act ∈ all, act.IsDue) :
    Doing p t below all done ⟨t, m.control, m.stack⟩ := by
  cases hstride with
  | returns => exact at_base hall (by simp)
  | panics => exact at_base hall (by simp)
  | changes => exact at_base hall (by simp)
  | calls op next => exact above_base [.caller next] hall (by simp)
  | answers => exact absurd rfl (hquiet.2 _)
  | owes => exact absurd rfl (hquiet.2 _)
  | serves => exact absurd rfl (hquiet.2 _)
  | emits => exact absurd rfl (hquiet.2 _)
  | attempts => exact absurd rfl (hquiet.2 _)
  | forks => exact absurd rfl (hquiet.2 _)
  | forksAndWaits => exact absurd rfl (hquiet.2 _)
  | joins => exact at_base hall (by simp)
  | joinsPanic => exact at_base hall (by simp)
  | acts => exact absurd rfl (hquiet.1 _)
  | tells => exact above_base [.receiving] hall (by simp)
  | records => exact at_base hall (by simp)
  | fansOut => exact above_base [_] hall (by simp)
  | handsOn _ _ h => exact h.elim
  | fansOn _ _ _ h => exact h.elim
  | pops _ _ _ h => exact h.elim
  | unwinds =>
    -- a panic comes here only once nothing is left that must not get lost
    cases todo with
    | nil =>
      rw [List.append_nil] at hall
      exact hall ▸ .finished trivial
    | cons first todo =>
      exact absurd ⟨first, List.mem_cons_self, hdue first (by simp [hall])⟩ (hd.fits _ rfl)
  | settles =>
    rw [List.append_nil] at hall
    exact hall ▸ .finished trivial
  | proceeds => exact .about hall

/-- What a step of the thread adds to what is done is the call's own act, if it is one. -/
theorem stride (h : Doing p t below all done ⟨t, control, stack⟩)
    (hstride : Stride client w t control stack m) (hd : Thread.Disciplined ⟨t, control, stack⟩)
    (hdue : ∀ act ∈ all, act.IsDue) (hback : ¬(stack = below ∧ control.IsReturn)) :
    Doing p t below all (done ++ (Moment.ownAct? p t below.length ⟨w, ⟨t, control, stack⟩⟩).toList)
      ⟨t, m.control, m.stack⟩ := by
  cases h with
  | @about _ due todo answer hall =>
    obtain ⟨-, hleads, hstack⟩ := hstride.of_act
    have hown : Moment.ownAct? p t below.length ⟨w, ⟨t, .act due, .acts p todo answer :: below⟩⟩ =
        some due := by
      simp [Moment.ownAct?]
    rw [hown, hstack]
    have hdue : due.IsDue := hdue due (by simp [hall])
    have hall' : all = (done ++ (some due).toList) ++ todo := by simp [hall]
    refine .at_base hall' ⟨?_, ?_⟩
    · intro other h
      exact Act.not_leadsTo_act (h ▸ hleads)
    · intro op h
      exact Act.not_leadsTo_perform hdue (h ▸ hleads)
  | @amid _ todo above _ answer hall hquiet =>
    cases above with
    | nil =>
      rw [ownAct?_eq_none (hquiet rfl).1, Option.toList_none, List.append_nil]
      exact stride_base hall (hquiet rfl) hstride hd hdue
    | cons frame above =>
      rw [List.cons_append, ownAct?_above, Option.toList_none, List.append_nil]
      obtain ⟨gone, come, rest, shape⟩ := hstride.shape hd.stacked.seated
      rw [shape.after]
      rcases shape.popped with rfl | ⟨hreturn, top, rfl⟩
      · obtain rfl : _ = rest := shape.before
        rw [← List.append_assoc come (frame :: above)]
        refine .amid hall ?_
        intro hnil
        simp at hnil
      · obtain ⟨rfl, rfl⟩ := List.cons.inj shape.before
        change Doing p t below all done ⟨t, m.control, come ++ (above ++ _)⟩
        rw [← List.append_assoc come above]
        refine .amid hall ?_
        intro hnil
        obtain ⟨rfl, rfl⟩ := List.append_eq_nil_iff.mp hnil
        constructor
        · intro due hact
          rcases shape.act rfl due hact with ⟨op, rfl⟩ | ⟨q, hq⟩
          · exact hreturn
          · cases hq
        · intro op hperform
          cases shape.perform rfl op hperform
  | finished hreturn => exact absurd ⟨rfl, hreturn⟩ hback

theorem eq_all (h : Doing p t below all done ⟨t, control, below⟩) : done = all := by
  generalize hthread : (⟨t, control, below⟩ : Thread M E K H) = thread at h
  cases h with
  | about =>
    have hlength := congrArg (·.stack.length) hthread
    simp at hlength
  | amid =>
    have hlength := congrArg (·.stack.length) hthread
    simp only [List.length_append, List.length_cons] at hlength
    omega
  | finished => rfl

theorem stack_ne_nil (h : Doing p t below all done thread)
    (hb : ¬(thread.stack = below ∧ thread.control.IsReturn)) : thread.stack ≠ [] := by
  cases h with
  | about => simp
  | amid => simp
  | finished hreturn => exact absurd ⟨rfl, hreturn⟩ hb

end Doing

/-- The moments of a call that owes something, one by one. -/
theorem Call.doing {all : List (Act M E K)} {answer : Reply M K}
    (call : Call client t below op start during w) (hw : start.Sound) (hr : SinksReturn during)
    (hdue : ∀ act ∈ all, act.IsDue)
    (hfirst : ∀ m, start.perform client t below op = some m →
      ∃ w', m = .acts w' below p all answer) :
    ∃ thread, w.thread? t = some thread ∧
      Doing p t below all (ownActs p t below during) thread := by
  refine call.invariant hw hr (fun during => Doing p t below all (ownActs p t below during)) ?_ ?_ ?_ ?_
  · intro m hm
    obtain ⟨_, rfl⟩ := hfirst m hm
    exact .at_base (by simp [ownActs, Moment.ownAct?]) (by simp [Move.acts])
  · intro during v control stack m hdoing hback hd _ hstride
    rw [ownActs_append, ownActs_singleton]
    exact hdoing.stride hstride hd hdue hback
  · intro during thread moment hdoing hne
    rw [ownActs_append, ownActs_singleton, Moment.ownAct?_of_id_ne hne, Option.toList_none,
      List.append_nil]
    exact hdoing
  · intro during thread hdoing hback
    exact hdoing.stack_ne_nil hback

section
variable {all : List (Act M E K)} {answer : Reply M K}
variable (call : Call client t below op start during w) (hw : start.Sound) (hr : SinksReturn during)
variable (hdue : ∀ act ∈ all, act.IsDue)
variable (hfirst : ∀ m, start.perform client t below op = some m →
  ∃ w', m = .acts w' below p all answer)
include call hw hr hdue hfirst

theorem Call.ownActs_prefix : ownActs p t below during <+: all := by
  obtain ⟨_, _, hdoing⟩ := call.doing hw hr hdue hfirst
  exact hdoing.prefix_all

/-- A call that is back has done all that it owed, in that order, and nothing else. -/
theorem Call.ownActs_eq (hback : w.IsBack t below) : ownActs p t below during = all := by
  obtain ⟨caller, hcaller, hdoing⟩ := call.doing hw hr hdue hfirst
  obtain ⟨control, hthread, -⟩ := hback
  cases hcaller.symm.trans hthread
  exact hdoing.eq_all

end
end Exchange
