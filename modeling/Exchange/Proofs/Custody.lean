import Exchange.Proofs.Answers
import Exchange.Proofs.Turnover

/-!
Passes and their calls. While a pass is open it belongs to one push call, the one that has opened it and has
not returned since: only that call goes on with the point, calls from inside are put off, other threads wait.
-/

namespace Exchange
set_option autoImplicit false

variable {M E K H : Type} {client : Client M E K H} {w w' : World M E K H} {t n p owner : Nat}
variable {thread : Thread M E K H} {control : Control M E K H} {stack below : List (Frame M E K H)}
variable {m : Move M E K H} {op : Op M E K} {pass : Pass M E K} {s : Standing M E K}
variable {trail : List (Moment M E K H)} {host : H}

/-! ## One call that serves the point -/

theorem Clear.countP (h : Clear p stack) : stack.countP (Frame.serves p) = 0 := by
  apply List.countP_eq_zero.mpr
  intro frame hframe hserves
  have hclear := h frame hframe
  cases frame <;> simp_all [Frame.serves, Frame.attends]

theorem Serves.countP {phase : Phase M E K} {v : Service} (h : Serves p phase v control stack) :
    stack.countP (Frame.serves p) = 1 := by
  induction h with
  | between hb => simp [hb.countP, Frame.serves]
  | calling _ hb => simp [hb.countP, Frame.serves]
  | engaged _ hb => simp [hb.countP, Frame.serves]
  | @above _ _ _ frame _ hframe _ _ ih =>
    have hserves : frame.serves p = false := by
      cases frame <;> simp_all [Frame.serves, Frame.attends]
    simp [hserves, ih]

namespace World

theorem isAlive_of_isServed (h : w.IsServed p) : w.isAlive p := by
  obtain ⟨thread, hmem, frame, hframe, hserves⟩ := h
  have hholds : frame.holdsPoint p := by cases frame <;> simp_all [Frame.serves, Frame.holdsPoint]
  have hthread : w.threads.any (Thread.holdsPoint p) :=
    List.any_eq_true.mpr ⟨thread, hmem, by
      simpa [Thread.holdsPoint] using .inr ⟨frame, hframe, hholds⟩⟩
  simp [isAlive, hthread]

/-- Only the thread to which the pass belongs has frames that attend to the point. -/
theorem Stands.eq_owner (h : w.Stands p s) (hs : s.Coherent)
    (hphase : w.phase p = .dispatching owner pass) (hmem : thread ∈ w.threads)
    {frame : Frame M E K H} (hframe : frame ∈ thread.stack) (hf : frame.attends p) :
    thread.id = owner := by
  have hserved : s.service ≠ .idle := hs.dispatching owner pass (h.phase_eq.trans hphase)
  have hattended := h.attended
  generalize s.service = v at hattended hserved
  cases hattended with
  | idle => exact absurd rfl hserved
  | served server _ _ howner hothers =>
    by_contra hne
    have hother := hothers thread hmem fun heq => hne (heq.trans (howner owner pass hphase).symm)
    have hclear := hother frame hframe
    rw [hf] at hclear
    cases hclear

/-- No call serves a point that is open. -/
theorem Stands.clear_of_listening (h : w.Stands p s) (hs : s.Coherent)
    (hopen : (w.phase p).isListening) (hmem : thread ∈ w.threads) : Clear p thread.stack := by
  cases hphase : w.phase p with
  | listening entries =>
    have hidle := hs.listening entries (h.phase_eq.trans hphase)
    have hattended := h.attended
    generalize s.service = v at hattended hidle
    cases hattended with
    | idle hall => exact hall thread hmem
    | served _ _ hserves => exact absurd hidle hserves.ne_idle
  | _ =>
    rw [hphase] at hopen
    cases hopen

theorem clear_flatMap {threads : List (Thread M E K H)} (h : ∀ thread ∈ threads, Clear p thread.stack) :
    Clear p (threads.flatMap (·.stack)) := by
  intro frame hframe
  obtain ⟨thread, hmem, hin⟩ := List.mem_flatMap.mp hframe
  exact h thread hmem frame hin

/-- In all stacks together there is at most one call that serves the point. -/
theorem Stands.one_call (h : w.Stands p s) (ho : w.Orderly) :
    (w.threads.flatMap (·.stack)).countP (Frame.serves p) ≤ 1 := by
  have hattended := h.attended
  generalize s.service = v at hattended
  cases hattended with
  | idle hall =>
    rw [(clear_flatMap hall).countP]
    exact Nat.zero_le 1
  | served server hmem hs _ hothers =>
    obtain ⟨before, after, heq⟩ := List.append_of_mem hmem
    have hnodup := ho.nodup
    rw [heq, List.map_append, List.map_cons, List.nodup_append, List.nodup_cons] at hnodup
    obtain ⟨-, ⟨hafter, -⟩, hbefore⟩ := hnodup
    have hfirst : Clear p (before.flatMap (·.stack)) := by
      apply clear_flatMap
      intro other hother
      refine hothers other (by simp [heq, hother]) ?_
      exact hbefore _ (List.mem_map_of_mem hother) _ List.mem_cons_self
    have hlast : Clear p (after.flatMap (·.stack)) := by
      apply clear_flatMap
      intro other hother
      refine hothers other (by simp [heq, hother]) ?_
      rintro hid
      exact hafter (hid ▸ List.mem_map_of_mem hother)
    simp [heq, hfirst.countP, hlast.countP, hs.countP]

/-! ## Other threads -/

/-- A call that finds another thread's pass takes no step. -/
theorem perform_busy (hphase : w.phase p = .dispatching owner pass) (hne : t ≠ owner)
    (halive : w.isAlive p) (hw : op.waitsFor? = some p) : w.perform client t stack op = none := by
  cases hp : w.points[p]? with
  | none => simp [phase, hp] at hphase
  | some point =>
    rw [phase_eq hp] at hphase
    have hbusy : point.phase.access t = .busy := by simp [hphase, Phase.access, Ne.symm hne]
    cases op <;> simp only [Op.waitsFor?, reduceCtorEq, Option.some.injEq] at hw
    case register => simp [perform, hw, hp, register, hbusy]
    case unregister => simp [perform, hw, hp, unregister, halive, hbusy]
    case atEnd => simp [perform, hw, hp, atEnd, hbusy]
    case push => simp [perform, hw, hp, push, hbusy]

/-- Whatever else a thread does that is not inside the pass, the pass stays as it is. -/
theorem Stands.visit (h : w.Stands p s) (hs : s.Coherent) (hphase : w.phase p = .dispatching owner pass)
    (hmem : thread ∈ w.threads) (hne : thread.id ≠ owner)
    (hm : w.move client thread.id thread.stack thread.control = some m) :
    m.world.phase p = w.phase p := by
  rcases move_turnover (p := p) hm with hsame | hturn
  · exact hsame
  · rw [hphase] at hturn
    generalize m.world.phase p = phase' at hturn
    cases hturn with
    | calls _ hturns =>
      cases hturns
      exact absurd rfl hne
    | advances stays _ hframe =>
      obtain ⟨frame, hframe, hattends⟩ := hframe
      exact absurd (h.eq_owner hs hphase hmem (List.mem_of_mem_head? hframe) hattends) hne
    | commits reply below _ hstack =>
      have hserving : .serving p ∈ thread.stack := by
        rw [show thread.stack = _ from hstack]
        exact List.mem_cons_self
      exact absurd (h.eq_owner hs hphase hmem hserving (by simp [Frame.attends])) hne

end World

/-! ## The call that has opened the pass -/

/-- The pass was opened at a moment of the trail by a push call above the frames `below`, has been open
ever since, and the call is on the stack still. -/
structure Custody (p owner : Nat) (below : List (Frame M E K H)) (world : World M E K H)
    (event : Event M E) (since : List (Moment M E K H)) (w : World M E K H) : Prop where
  opened : (world.phase p).isListening
  clear : Clear p below
  since : ∀ m ∈ since, ∃ pass, m.world.phase p = .dispatching owner pass
  serving : ∃ control above, w.thread? owner = some ⟨owner, control, above ++ .serving p :: below⟩

theorem World.push_serves {event : Event M E} {stack : List (Frame M E K H)}
    (hopen : (w.phase p).isListening) (hm : w.perform client t stack (.push p event) = some m)
    (hphase : m.world.phase p = .dispatching owner pass) : m.stack = .serving p :: stack := by
  cases hp : w.points[p]? with
  | none =>
    simp only [World.perform, hp] at hm
    cases hm
    rw [show w.phase p = _ from hphase] at hopen
    cases hopen
  | some point =>
    obtain ⟨m', hm', ⟨-, -, -, hstack⟩ | ⟨hended, -⟩⟩ :
        ∃ m, w.perform client t stack (.push p event) = some m ∧ _ :=
      World.push_at_rest hp (.inl hopen) event
    · cases hm.symm.trans hm'
      exact hstack
    · cases h : w.phase p <;> simp_all [Phase.isListening, Phase.isEnded]

/-- A pass is opened by a push call on the open point; else it has been open before. -/
theorem World.Stands.opens (h : w.Stands p s) (hs : s.Coherent) (hmem : thread ∈ w.threads)
    (hm : w.move client thread.id thread.stack thread.control = some m)
    (hphase : m.world.phase p = .dispatching owner pass) :
    (∃ pass, w.phase p = .dispatching owner pass) ∨
      owner = thread.id ∧ (w.phase p).isListening ∧
        ∃ event, thread.control = .perform (.push p event) := by
  rcases World.move_turnover (p := p) hm with hsame | hturn
  · exact .inl ⟨pass, hsame ▸ hphase⟩
  · rw [hphase] at hturn
    generalize hbefore : w.phase p = phase at hturn
    generalize hafter : (.dispatching owner pass : Phase M E K) = phase' at hturn
    cases hturn with
    | calls hcontrol hturns =>
      cases hturns with
      | pushes event =>
        cases hafter
        exact .inr ⟨rfl, rfl, event, hcontrol⟩
      | putsOff =>
        cases hafter
        exact .inl ⟨_, rfl⟩
      | _ => cases hafter
    | advances stays => exact .inl (Phase.owner_of_advance hafter.symm)
    | @commits owner' pass' reply below _ hstack =>
      left
      have hserving : .serving p ∈ thread.stack := by
        rw [show thread.stack = _ from hstack]
        exact List.mem_cons_self
      obtain ⟨-, -, rfl, -⟩ := Pass.commit_dispatching hafter.symm
      exact ⟨pass', by rw [h.eq_owner hs hbefore hmem hserving (by simp [Frame.attends])]⟩
    | drops => cases hafter

theorem Run.custody (run : Run client (.initial host) trail w) (hr : SinksReturn trail)
    (hphase : w.phase p = .dispatching owner pass) :
    ∃ before world event below since,
      trail = before ++ ⟨world, ⟨owner, .perform (.push p event), below⟩⟩ :: since ∧
        Custody p owner below world event since w := by
  induction run generalizing pass with
  | refl => simp [World.phase, World.initial] at hphase
  | @step trail w w' n thread run ht hstep ih =>
    have hr' := (sinksReturn_append.mp hr).1
    have hsound := run.sound (World.initial_sound host) hr'
    obtain ⟨s, course, stands⟩ := run.course_of_initial hr' p
    have hs := course.coherent Standing.initial_coherent
    obtain ⟨⟨m, hm, stepped⟩, ho⟩ := World.step_stepped hsound.orderly ht hstep
    have hafter : w'.phase p = m.world.phase p := by simp only [World.phase, stepped.points]
    have hmem := World.mem_of_thread? ht
    have hid := World.id_of_thread? ht
    have hnow := ho.thread?_eq stepped.succession.mem_after
    rw [← hid] at hm
    rcases stands.opens hs hmem hm (hafter ▸ hphase) with
      ⟨pass', hopen⟩ | ⟨rfl, hlistening, event, hcontrol⟩
    · obtain ⟨before, world, event, below, since, rfl, custody⟩ := ih hr' hopen
      refine ⟨before, world, event, below, since ++ [⟨w, thread⟩], by simp, custody.opened,
        custody.clear, ?_, ?_⟩
      · intro moment hmoment
        rcases List.mem_append.mp hmoment with hold | hnew
        · exact custody.since moment hold
        · rw [List.mem_singleton.mp hnew]
          exact ⟨pass', hopen⟩
      · obtain ⟨control, above, hserver⟩ := custody.serving
        by_cases hne : n = owner
        · subst hne
          cases ht.symm.trans hserver
          rcases stepped.stride.above_serving (hsound.disciplined _ hmem) with
            ⟨above', hstack⟩ | ⟨hstack, -⟩
          · exact ⟨m.control, above', hstack ▸ hnow⟩
          · -- the call has not returned, since the pass is its own
            refine absurd hphase ((run.step ht hstep).outside hr hnow ?_ pass)
            rw [hstack]
            intro hserving
            have hclear := custody.clear _ hserving
            simp [Frame.attends] at hclear
        · exact ⟨control, above, stepped.keeps ho hserver (Ne.symm hne) (by simp)⟩
    · obtain ⟨id, control, stack⟩ := thread
      obtain rfl : control = .perform (.push p event) := hcontrol
      have hperform : w.perform client id stack (.push p event) = some m := hm
      have hstack := World.push_serves hlistening hperform (hafter ▸ hphase)
      refine ⟨trail, w, event, stack, [], rfl, hlistening, ?_, by simp, m.control, [], hstack ▸ hnow⟩
      exact stands.clear_of_listening hs hlistening hmem
  | between run hb ih =>
    obtain ⟨hinterlude, ho⟩ := World.between_interlude
      (run.sound (World.initial_sound host) hr).orderly hb
    obtain ⟨before, world, event, below, since, heq, custody⟩ :=
      ih hr (by simpa only [World.phase, hinterlude.1] using hphase)
    obtain ⟨control, above, hserver⟩ := custody.serving
    exact ⟨before, world, event, below, since, heq, custody.opened, custody.clear, custody.since,
      control, above, World.keeps_of_interlude hinterlude ho hserver (by simp)⟩

end Exchange
