import Exchange.Proofs.Custody
import Exchange.Proofs.FinalEvent

/-!
The life of a point: open, with passes one after the other, and then ended for good. What everybody can see
of it changes in few ways, each of them a call on the point or the work of the call to which the pass
belongs. Calls from inside a pass leave it as it is, and who comes after the end is given the tombstone.
-/

namespace Exchange
set_option autoImplicit false

variable {M E K H : Type} {client : Client M E K H} {start w w' : World M E K H} {t n p owner : Nat}
variable {thread : Thread M E K H} {control : Control M E K H} {stack below : List (Frame M E K H)}
variable {m : Move M E K H} {op : Op M E K} {pass : Pass M E K} {s : Standing M E K}
variable {trail during : List (Moment M E K H)} {host : H}

/-! ## Calls from inside a pass -/

theorem World.Stands.serves (h : w.Stands p s) (hmem : thread ∈ w.threads)
    (ho : w.Orderly) (hserving : .serving p ∈ thread.stack) :
    ∃ v, Serves p (w.phase p) v thread.control thread.stack := by
  have hattended := h.attended
  generalize s.service = v at hattended
  have attends : (Frame.serving p : Frame M E K H).attends p := by simp [Frame.attends]
  cases hattended with
  | idle hall => simp [hall thread hmem _ hserving] at attends
  | served server hserver hs _ hothers =>
    by_cases hne : thread.id = server.id
    · exact ⟨v, ho.eq_of_id_eq hmem hserver hne ▸ hs⟩
    · simp [hothers thread hmem hne _ hserving] at attends

theorem not_clear_of_serving (h : .serving p ∈ stack) : ¬Clear p stack := by
  intro hclear
  have hattends := hclear _ h
  simp [Frame.attends] at hattends

/-- Nothing above a call from inside the pass attends to the point. -/
theorem Serves.not_attends {phase : Phase M E K} {v : Service} {frame : Frame M E K H}
    {above : List (Frame M E K H)} (h : Serves p phase v control (frame :: (above ++ below)))
    (hserving : .serving p ∈ below) (htop : below.head? ≠ some (.serving p)) :
    frame.attends p = false := by
  have never {frames : List (Frame M E K H)} : ¬Clear p (frames ++ below) :=
    not_clear_of_serving (List.mem_append_right _ hserving)
  by_contra hframe
  rcases Frame.attends_iff.mp (by simpa using hframe) with rfl | rfl
  · exact never h.of_serving.2
  · obtain ⟨rest, hrest, hclear, -⟩ := h.of_delivering
    cases above with
    | nil =>
      rw [List.nil_append] at hrest
      exact htop (by rw [hrest]; rfl)
    | cons top above =>
      obtain ⟨-, rfl⟩ := List.cons.inj hrest
      exact never hclear

/-- A call that serves the point stands below everything else that serves it. -/
theorem Serves.clear_below {phase : Phase M E K} {v : Service} {above : List (Frame M E K H)}
    (h : Serves p phase v control (above ++ .serving p :: below)) : Clear p below := by
  have never {frames : List (Frame M E K H)} : ¬Clear p (frames ++ .serving p :: below) :=
    not_clear_of_serving (by simp)
  induction above generalizing v control with
  | nil => exact h.of_serving.2
  | cons frame above ih =>
    by_cases hframe : frame.attends p
    · rcases Frame.attends_iff.mp hframe with rfl | rfl
      · exact absurd h.of_serving.2 never
      · obtain ⟨rest, hrest, hclear, -⟩ := h.of_delivering
        cases above with
        | nil =>
          cases hrest
          exact hclear
        | cons top above =>
          obtain ⟨-, rfl⟩ := List.cons.inj hrest
          exact absurd hclear never
    · rw [List.cons_append] at h
      generalize hstack : above ++ .serving p :: below = stack at h
      cases h with
      | above _ _ h => exact ih (hstack ▸ h)
      | _ => simp [Frame.attends] at hframe

theorem Clear.eq_of_append {above above' rest : List (Frame M E K H)} (hrest : Clear p rest)
    (hbelow : Clear p below) (h : above ++ .serving p :: rest = above' ++ .serving p :: below) :
    rest = below := by
  have never {frames other : List (Frame M E K H)} : ¬Clear p (frames ++ .serving p :: other) :=
    not_clear_of_serving (by simp)
  rcases List.append_eq_append_iff.mp h with ⟨between, -, heq⟩ | ⟨between, -, heq⟩
  · cases between with
    | nil => exact (List.cons.inj heq).2
    | cons frame between =>
      obtain ⟨-, rfl⟩ := List.cons.inj heq
      exact absurd hrest never
  · cases between with
    | nil => exact (List.cons.inj heq).2.symm
    | cons frame between =>
      obtain ⟨-, rfl⟩ := List.cons.inj heq
      exact absurd hbelow never

/-- The pass with some more calls put off. -/
def Pass.deferring (pass : Pass M E K) (calls : List (Postponed M E K)) : Pass M E K :=
  { pass with postponed := pass.postponed ++ calls }

@[simp] theorem Pass.deferring_nil : pass.deferring [] = pass := by simp [deferring]

@[simp] theorem Pass.deferring_deferring (first second : List (Postponed M E K)) :
    (pass.deferring first).deferring second = pass.deferring (first ++ second) := by
  simp [deferring]

/-- A step taken above a call from inside the pass puts one call off, or leaves the pass alone. -/
theorem World.Stands.step_inside (h : w.Stands p s) (ho : w.Orderly)
    (hphase : w.phase p = .dispatching t pass) (hmem : ⟨t, control, stack⟩ ∈ w.threads)
    (hm : w.move client t stack control = some m) {above : List (Frame M E K H)}
    (hstack : stack = above ++ below) (hserving : .serving p ∈ below)
    (htop : below.head? ≠ some (.serving p)) (hback : ¬(stack = below ∧ control.IsReturn)) :
    ∃ calls, m.world.phase p = .dispatching t (pass.deferring calls) := by
  -- a frame that attends to the point would have to be the top frame of the call itself
  have nobody {frame : Frame M E K H} (hreturn : control.IsReturn) (hframe : stack.head? = some frame) :
      frame.attends p = false := by
    cases above with
    | nil => exact absurd ⟨hstack, hreturn⟩ hback
    | cons top above =>
      obtain ⟨v, hserves⟩ := h.serves hmem ho (by simp [hstack, hserving])
      dsimp only at hserves
      rw [hstack] at hserves hframe
      cases hframe
      exact hserves.not_attends hserving htop
  rcases World.move_turnover (p := p) hm with hsame | hturn
  · exact ⟨[], by rw [hsame, hphase, Pass.deferring_nil]⟩
  · rw [hphase] at hturn
    generalize m.world.phase p = phase' at hturn
    cases hturn with
    | calls _ hturns =>
      cases hturns with
      | putsOff ticket call => exact ⟨[call], rfl⟩
    | advances _ hreturn hframe =>
      obtain ⟨frame, hframe, hattends⟩ := hframe
      rw [nobody hreturn hframe] at hattends
      cases hattends
    | commits reply rest hcontrol hrest =>
      obtain rfl : control = .resume reply := hcontrol
      obtain rfl : stack = .serving p :: rest := hrest
      have hnot := nobody trivial rfl
      simp [Frame.attends] at hnot

section
variable (hserving : .serving p ∈ below) (htop : below.head? ≠ some (.serving p))
include hserving htop

/-- Until a call from inside the pass is back, every step of any thread leaves the pass alone, but for
what the call puts off. -/
theorem Run.step_inside (run : Run client (.initial host) trail w) (hr : SinksReturn trail)
    (hphase : w.phase p = .dispatching t pass) (hn : w.thread? n = some thread)
    (hs : w.step client n = some w') {above : List (Frame M E K H)}
    (hcaller : w.thread? t = some ⟨t, control, above ++ below⟩)
    (hback : ¬(above = [] ∧ control.IsReturn)) :
    ∃ calls, w'.phase p = .dispatching t (pass.deferring calls) := by
  have hsound := run.sound (World.initial_sound host) hr
  obtain ⟨s, course, stands⟩ := run.course_of_initial hr p
  obtain ⟨⟨m, hm, stepped⟩, -⟩ := World.step_stepped hsound.orderly hn hs
  have hafter : w'.phase p = m.world.phase p := by simp only [World.phase, stepped.points]
  have hid := World.id_of_thread? hn
  have hmem := World.mem_of_thread? hn
  rw [hafter]
  by_cases hne : n = t
  · subst hne
    cases hn.symm.trans hcaller
    exact stands.step_inside hsound.orderly hphase hmem hm rfl hserving htop (by simpa using hback)
  · refine ⟨[], ?_⟩
    rw [Pass.deferring_nil, stands.visit (course.coherent Standing.initial_coherent) hphase hmem
      (hid ▸ hne) (hid ▸ hm), hphase]

end

/-- A call from inside the pass leaves the pass as it is, but for what it puts off. -/
theorem Call.inside {first : List (Moment M E K H)} (call : Call client t below op start during w)
    (run : Run client (.initial host) first start) (hr : SinksReturn (first ++ during))
    (hphase : start.phase p = .dispatching t pass) :
    (∀ m ∈ during, ∃ calls, m.world.phase p = .dispatching t (pass.deferring calls)) ∧
      ∃ calls, w.phase p = .dispatching t (pass.deferring calls) := by
  obtain ⟨hfirst, hduring⟩ := sinksReturn_append.mp hr
  have hstart := run.sound (World.initial_sound host) hfirst
  obtain ⟨-, -, hmade, -⟩ := call.first
  have hserving : .serving p ∈ below := by
    obtain ⟨_, _, _, _, _, -, custody⟩ := run.custody hfirst hphase
    obtain ⟨control, above, hserver⟩ := custody.serving
    cases hmade.symm.trans hserver
    simp
  have htop : below.head? ≠ some (.serving p) := by
    intro htop
    exact (hstart.disciplined _ (World.mem_of_thread? hmade)).fits.1 _ htop trivial
  clear hr
  induction call with
  | made ht hs =>
    have hcaller : start.thread? t = some ⟨t, .perform op, [] ++ below⟩ := ht
    refine ⟨?_, run.step_inside hserving htop hfirst hphase ht hs hcaller (by simp [Control.IsReturn])⟩
    intro moment hmoment
    rw [List.mem_singleton.mp hmoment]
    exact ⟨[], by rw [Pass.deferring_nil, hphase]⟩
  | @step during w w' n thread call hback hn hs ih =>
    obtain ⟨hduring, -⟩ := sinksReturn_append.mp hduring
    obtain ⟨hall, calls, hnow⟩ := ih hduring
    refine ⟨?_, ?_⟩
    · intro moment hmoment
      rcases List.mem_append.mp hmoment with hold | hnew
      · exact hall moment hold
      · rw [List.mem_singleton.mp hnew]
        exact ⟨calls, hnow⟩
    · obtain ⟨control, above, hcaller⟩ := call.above hstart hduring (List.ne_nil_of_mem hserving)
      have hnot : ¬(above = [] ∧ control.IsReturn) := by
        rintro ⟨rfl, hreturn⟩
        exact hback ⟨control, hcaller, hreturn⟩
      obtain ⟨more, hmore⟩ := (run.trans call.run).step_inside hserving htop
        (sinksReturn_append.mpr ⟨hfirst, hduring⟩) hnow hn hs hcaller hnot
      exact ⟨calls ++ more, by rw [hmore, Pass.deferring_deferring]⟩
  | between call hback hb ih =>
    obtain ⟨hall, calls, hnow⟩ := ih hduring
    obtain ⟨hinterlude, -⟩ := World.between_interlude (call.run.sound hstart hduring).orderly hb
    exact ⟨hall, calls, by simpa only [World.phase, hinterlude.1] using hnow⟩

/-! ## Registrations after the end -/

/-- A call that owes something goes on in its frame, or answers, or passes on a panic when nothing is left
that it owes. -/
theorem Stride.of_acts {todo : List (Act M E K)} {answer : Reply M K}
    (h : Stride client w t control (.acts p todo answer :: below) m)
    (hd : Thread.Disciplined ⟨n, control, .acts p todo answer :: below⟩)
    (hdue : ∀ act ∈ todo, act.IsDue) :
    (∃ above todo', m.stack = above ++ .acts p todo' answer :: below ∧ ∀ act ∈ todo', act ∈ todo) ∨
      (m.stack = below ∧ m.control = .resume answer) ∨
      ∃ payload, control = .unwind payload ∧ todo = [] ∧ m.stack = below ∧
        m.control = .unwind payload := by
  have stays (above : List (Frame M E K H)) (hstack : m.stack = above ++ .acts p todo answer :: below) :
      ∃ above todo', m.stack = above ++ .acts p todo' answer :: below ∧ ∀ act ∈ todo', act ∈ todo :=
    ⟨above, todo, hstack, fun _ h => h⟩
  cases h with
  | handsOn _ _ hf => exact hf.elim
  | fansOn _ _ _ hf => exact hf.elim
  | pops _ _ _ hplain => exact hplain.elim
  | unwinds payload =>
    cases todo with
    | nil => exact .inr (.inr ⟨payload, rfl, rfl, rfl, rfl⟩)
    | cons first todo =>
      exact absurd ⟨first, List.mem_cons_self, hdue first List.mem_cons_self⟩ (hd.fits _ rfl)
  | settles => exact .inr (.inl ⟨rfl, rfl⟩)
  | @proceeds _ _ _ first todo =>
    exact .inl ⟨[], todo, rfl, fun _ h => List.mem_cons_of_mem _ h⟩
  | calls op next => exact .inl (stays [_] rfl)
  | owes => exact .inl (stays [_] rfl)
  | serves => exact .inl (stays [_] rfl)
  | attempts => exact .inl (stays [_] rfl)
  | tells => exact .inl (stays [_] rfl)
  | fansOut => exact .inl (stays [_] rfl)
  | _ => exact .inl (stays [] rfl)

/-- How a call comes back that owes something: with its answer, or with a panic that comes from what it
owes last. -/
theorem Call.owing {all : List (Act M E K)} {answer : Reply M K}
    (call : Call client t below op start during w) (hw : start.Sound) (hr : SinksReturn during)
    (hdue : ∀ act ∈ all, act.IsDue)
    (hfirst : ∀ m, start.perform client t below op = some m →
      ∃ w', m = .acts w' below p all answer) :
    (∃ control above todo, w.thread? t = some ⟨t, control, above ++ .acts p todo answer :: below⟩ ∧
      ∀ act ∈ todo, act ∈ all) ∨
    w.thread? t = some ⟨t, .resume answer, below⟩ ∨
    ∃ payload world, w.thread? t = some ⟨t, .unwind payload, below⟩ ∧
      ⟨world, ⟨t, .unwind payload, .acts p [] answer :: below⟩⟩ ∈ during := by
  have hholds : ∃ thread, w.thread? t = some thread ∧
      ((∃ control above todo, thread = ⟨t, control, above ++ .acts p todo answer :: below⟩ ∧
          ∀ act ∈ todo, act ∈ all) ∨
        thread = ⟨t, .resume answer, below⟩ ∨
        ∃ payload world, thread = ⟨t, .unwind payload, below⟩ ∧
          ⟨world, ⟨t, .unwind payload, .acts p [] answer :: below⟩⟩ ∈ during) := by
    refine call.invariant hw hr
      (fun during thread =>
        (∃ control above todo, thread = ⟨t, control, above ++ .acts p todo answer :: below⟩ ∧
          ∀ act ∈ todo, act ∈ all) ∨
        thread = ⟨t, .resume answer, below⟩ ∨
        ∃ payload world, thread = ⟨t, .unwind payload, below⟩ ∧
          ⟨world, ⟨t, .unwind payload, .acts p [] answer :: below⟩⟩ ∈ during) ?_ ?_ ?_ ?_
    · intro m hm
      obtain ⟨_, rfl⟩ := hfirst m hm
      exact .inl ⟨_, [], all, rfl, fun _ h => h⟩
    · rintro during v control _ m (⟨_, above, todo, h, htodo⟩ | h | ⟨_, _, h, -⟩) hback hd - hstride
      · cases h
        obtain ⟨gone, come, rest, shape⟩ := hstride.shape hd.stacked.seated
        rcases shape.popped with rfl | ⟨hreturn, top, rfl⟩
        · obtain rfl : _ = rest := shape.before
          exact .inl ⟨m.control, come ++ above, todo, by rw [shape.after, List.append_assoc], htodo⟩
        · cases above with
          | cons frame above =>
            obtain ⟨rfl, rfl⟩ := List.cons.inj shape.before
            exact .inl ⟨m.control, come ++ above, todo, by rw [shape.after, List.append_assoc]; rfl, htodo⟩
          | nil =>
            rcases hstride.of_acts hd fun act h => hdue act (htodo act h) with
              ⟨above, todo', hstack, hless⟩ | ⟨hstack, hcontrol⟩ |
              ⟨payload, rfl, rfl, hstack, hcontrol⟩
            · exact .inl ⟨m.control, above, todo', by rw [hstack], fun act h => htodo act (hless act h)⟩
            · exact .inr (.inl (by rw [hstack, hcontrol]))
            · exact .inr (.inr ⟨payload, v, by rw [hstack, hcontrol], by simp⟩)
      · cases h
        exact absurd ⟨rfl, trivial⟩ hback
      · cases h
        exact absurd ⟨rfl, trivial⟩ hback
    · rintro during thread moment (h | h | ⟨payload, world, h, hmem⟩) -
      · exact .inl h
      · exact .inr (.inl h)
      · exact .inr (.inr ⟨payload, world, h, List.mem_append_left _ hmem⟩)
    · rintro _ _ (⟨_, _, _, rfl, -⟩ | rfl | ⟨_, _, rfl, -⟩) hback
      · simp
      · exact absurd ⟨rfl, trivial⟩ hback
      · exact absurd ⟨rfl, trivial⟩ hback
  obtain ⟨thread, hthread, ⟨control, above, todo, rfl, htodo⟩ | rfl | ⟨payload, world, rfl, hmem⟩⟩ :=
    hholds
  · exact .inl ⟨control, above, todo, hthread, htodo⟩
  · exact .inr (.inl hthread)
  · exact .inr (.inr ⟨payload, world, hthread, hmem⟩)

/-! ## What everybody can see of a point -/

/-- The events of the next passes were pushed from inside. -/
theorem Change.upcoming {s s' : Standing M E K} {happenings : List (Happening M E K)}
    (h : Change s happenings s') :
    ∀ event ∈ s'.phase.upcoming, event ∈ s.phase.upcoming ∨ .pushed event .putOff ∈ happenings := by
  intro event hevent
  cases h with
  | pushesInside =>
    simp only [Phase.upcoming, Pass.upcoming_postponed, Postponed.pushed?, Option.toList_some,
      List.mem_append, List.mem_singleton] at hevent ⊢
    simpa [eq_comm] using hevent
  | awaitsInside => exact .inl (by simpa [Phase.upcoming, Postponed.pushed?] using hevent)
  | unregistersInside => exact .inl (by simpa [Phase.upcoming, Postponed.pushed?] using hevent)
  | skips => exact .inl (by simpa using hevent)
  | leaves => exact .inl (by simpa using hevent)
  | pushes => simp [Phase.upcoming] at hevent
  | goesOn _ hcommit =>
    obtain ⟨-, -, -, next, later, hqueue, rfl⟩ := Pass.commit_dispatching hcommit
    left
    simp only [Phase.upcoming, Pass.upcoming_opened] at hevent ⊢
    exact hqueue ▸ List.mem_cons_of_mem _ hevent
  | ends _ hcommit =>
    left
    rcases Pass.commit_ended hcommit with ⟨-, rfl⟩ | ⟨-, -, rfl⟩ <;> exact hevent
  | drops => exact .inl (List.mem_cons_of_mem _ hevent)
  | _ => first | exact .inl hevent | cases hevent

theorem Course.upcoming {history : List (Happening M E K)} (h : Course .initial history s) :
    ∀ event ∈ s.phase.upcoming, .pushed event .putOff ∈ history := by
  induction h with
  | refl => simp [Standing.initial, Phase.upcoming]
  | step _ hchange ih =>
    intro event hevent
    rcases hchange.upcoming event hevent with hold | hnew
    · exact List.mem_append_left _ (ih event hold)
    · exact List.mem_append_right _ hnew

/-- What the lock of a point guards, and the event of the pass: while a pass is open the list is in the
hands of its call. -/
inductive Outline (M E K : Type) where
  | listening (entries : List (Entry K))
  | dispatching (thread : Nat) (event : Event M E) (postponed : List (Postponed M E K))
  | ended

def Phase.outline : Phase M E K → Outline M E K
  | .listening entries => .listening entries
  | .dispatching thread pass => .dispatching thread pass.event pass.postponed
  | .ended _ => .ended

/-- The ways in which the outline of a point changes by a step of a thread. -/
inductive Outline.Turnover (p : Nat) (past : List (Happening M E K)) (thread : Thread M E K H) :
    Outline M E K → Outline M E K → Prop
  | joins {op entries} (entry : Entry K) : thread.control = .perform op → op.waitsFor? = some p →
      Turnover p past thread (.listening entries) (.listening (entries ++ [entry]))
  | removes {handle entries} : thread.control = .perform (.unregister handle) →
      handle.point = some p →
      Turnover p past thread (.listening entries) (.listening (without handle.id entries))
  | opens {event entries} : thread.control = .perform (.push p event) →
      Turnover p past thread (.listening entries) (.dispatching thread.id event [])
  /-- The last observer is removed that held the point open. -/
  | lapses {handle entries} : thread.control = .perform (.unregister handle) →
      handle.point = some p → Turnover p past thread (.listening entries) .ended
  | putsOff {op event calls ticket call} : thread.control = .perform op →
      op.waitsFor? = some p → op.postponed? ticket = some call → .serving p ∈ thread.stack →
      Turnover p past thread (.dispatching thread.id event calls)
        (.dispatching thread.id event (calls ++ [call]))
  /-- The pass of an event that was pushed from inside. -/
  | goesOn {reply below event next calls} : thread.control = .resume reply →
      thread.stack = .serving p :: below → .pushed next .putOff ∈ past →
      Turnover p past thread (.dispatching thread.id event calls) (.dispatching thread.id next [])
  | reopens {reply below event calls entries} : thread.control = .resume reply →
      thread.stack = .serving p :: below →
      Turnover p past thread (.dispatching thread.id event calls) (.listening entries)
  | closes {reply below event calls} : thread.control = .resume reply →
      thread.stack = .serving p :: below →
      Turnover p past thread (.dispatching thread.id event calls) .ended

theorem Phase.outline_advance (phase : Phase M E K) (stays : Bool) :
    (phase.advance stays).outline = phase.outline := by
  cases phase with
  | dispatching owner pass =>
    obtain ⟨event, waiting, kept, postponed, queue⟩ := pass
    cases waiting <;> rfl
  | _ => rfl

theorem World.Stands.outline {past : List (Happening M E K)} (h : w.Stands p s)
    (course : Course .initial past s) (hmem : thread ∈ w.threads)
    (hm : w.move client thread.id thread.stack thread.control = some m)
    (hserving : ∀ pass, w.phase p = .dispatching thread.id pass → .serving p ∈ thread.stack) :
    (m.world.phase p).outline = (w.phase p).outline ∨
      Outline.Turnover p past thread (w.phase p).outline (m.world.phase p).outline := by
  rcases World.move_turnover (p := p) hm with hsame | hturn
  · exact .inl (by rw [hsame])
  · generalize hbefore : w.phase p = phase at hturn ⊢
    generalize m.world.phase p = phase' at hturn
    cases hturn with
    | calls hcontrol hturns =>
      right
      cases hturns with
      | registers => exact .joins _ hcontrol rfl
      | awaits => exact .joins _ hcontrol rfl
      | unregisters _ hhandle => exact .removes hcontrol hhandle
      | lapses _ hhandle => exact .lapses hcontrol hhandle
      | pushes => exact .opens hcontrol
      | putsOff _ _ hwaits hcall => exact .putsOff hcontrol hwaits hcall (hserving _ hbefore)
    | advances stays => exact .inl (phase.outline_advance stays)
    | @commits owner pass reply below hcontrol hstack =>
      right
      have hin : .serving p ∈ thread.stack := by
        rw [show thread.stack = _ from hstack]
        exact List.mem_cons_self
      obtain rfl := h.eq_owner (course.coherent Standing.initial_coherent) hbefore hmem hin
        (by simp [Frame.attends])
      cases hcommit : pass.commit thread.id with
      | listening entries => exact .reopens hcontrol hstack
      | dispatching owner next =>
        obtain ⟨-, -, rfl, event, later, hqueue, rfl⟩ := Pass.commit_dispatching hcommit
        refine .goesOn hcontrol hstack (course.upcoming event ?_)
        simp [h.phase_eq, hbefore, Phase.upcoming, hqueue]
      | ended => exact .closes hcontrol hstack
    | drops => exact .inl rfl

/-! ## Runs -/

theorem Run.ended {u : World M E K H} (run : Run client u trail w) (ho : u.Orderly)
    (hended : (u.phase p).isEnded) :
    w.Orderly ∧ (w.phase p).isEnded ∧ ∀ m ∈ trail, (m.world.phase p).isEnded := by
  induction run with
  | refl => exact ⟨ho, hended, by simp⟩
  | @step trail w w' n thread _ ht hs ih =>
    obtain ⟨hw, hnow, hall⟩ := ih
    obtain ⟨⟨m, hm, stepped⟩, ho'⟩ := World.step_stepped hw ht hs
    have hafter : w'.phase p = m.world.phase p := by simp only [World.phase, stepped.points]
    refine ⟨ho', hafter ▸ (World.move_follows hm).ended hnow, ?_⟩
    intro moment hmoment
    rcases List.mem_append.mp hmoment with hold | hnew
    · exact hall moment hold
    · rw [List.mem_singleton.mp hnew]
      exact hnow
  | between _ hb ih =>
    obtain ⟨hw, hnow, hall⟩ := ih
    obtain ⟨hinterlude, ho'⟩ := World.between_interlude hw hb
    exact ⟨ho', by simpa only [World.phase, hinterlude.1] using hnow, hall⟩

theorem Run.turnover (run : Run client (.initial host) trail w) (hr : SinksReturn trail)
    (hn : w.thread? n = some thread) (hs : w.step client n = some w') :
    (w'.phase p).outline = (w.phase p).outline ∨
      Outline.Turnover p (history p trail) thread (w.phase p).outline (w'.phase p).outline := by
  have hsound := run.sound (World.initial_sound host) hr
  obtain ⟨s, course, stands⟩ := run.course_of_initial hr p
  obtain ⟨⟨m, hm, stepped⟩, -⟩ := World.step_stepped hsound.orderly hn hs
  have hafter : w'.phase p = m.world.phase p := by simp only [World.phase, stepped.points]
  rw [← World.id_of_thread? hn] at hm
  rw [hafter]
  refine stands.outline course (World.mem_of_thread? hn) hm ?_
  intro pass hpass
  by_contra hnot
  exact run.outside hr (World.id_of_thread? hn ▸ hn) hnot pass hpass

/-- The one call that serves a point while its pass is open is the call that has opened it. -/
theorem Run.one_custody (run : Run client (.initial host) trail w) (hr : SinksReturn trail)
    (hphase : w.phase p = .dispatching owner pass) :
    ∃ before world event below since,
      trail = before ++ ⟨world, ⟨owner, .perform (.push p event), below⟩⟩ :: since ∧
        Custody p owner below world event since w ∧
        ∀ thread ∈ w.threads, ∀ above rest, thread.stack = above ++ .serving p :: rest →
          thread.id = owner ∧ rest = below := by
  obtain ⟨before, world, event, below, since, heq, custody⟩ := run.custody hr hphase
  refine ⟨before, world, event, below, since, heq, custody, ?_⟩
  have hsound := run.sound (World.initial_sound host) hr
  obtain ⟨s, course, stands⟩ := run.course_of_initial hr p
  intro thread hmem above rest hstack
  have hserving : .serving p ∈ thread.stack := by simp [hstack]
  have hid := stands.eq_owner (course.coherent Standing.initial_coherent) hphase hmem hserving
    (by simp [Frame.attends])
  refine ⟨hid, ?_⟩
  obtain ⟨v, hserves⟩ := stands.serves hmem hsound.orderly hserving
  obtain ⟨control, above', hserver⟩ := custody.serving
  have hsame := hsound.orderly.eq_of_id_eq hmem (World.mem_of_thread? hserver) hid
  rw [hstack] at hserves
  exact hserves.clear_below.eq_of_append custody.clear (hstack.symm.trans (by rw [hsame]))

/-- Nobody waits to register on a point that has ended: the callback is given the tombstone by the
call itself, which then answers with an inert handle, or passes on the callback's own panic. -/
theorem Call.registers_late {point : Point M E K} {interest : Interest} {code : K}
    (call : Call client t below (.register p interest code) start during w) (hw : start.Sound)
    (hr : SinksReturn during) (hp : start.points[p]? = some point) (hended : point.phase.isEnded)
    (hback : w.IsBack t below) :
    w.thread? t = some ⟨t, .resume (.registered (.ok .inert)), below⟩ ∨
      ∃ payload world, w.thread? t = some ⟨t, .unwind payload, below⟩ ∧
        ⟨world, ⟨t, .unwind payload, .acts p [] (.registered (.ok .inert)) :: below⟩⟩ ∈ during := by
  obtain ⟨hdue, hfirst⟩ := World.owes_latecomer hp hended
  rcases call.owing hw hr hdue hfirst with ⟨control, above, todo, hthread, -⟩ | h | h
  · exact absurd hthread (hback.not_above above)
  · exact .inl h
  · exact .inr h

/-- A point ends once and stays ended, and its passes belong to the calls that have opened them. Along every
run its outline changes in few ways; the pass that is open was opened by a push call that is on the stack
still, and no other call serves the point; calls from inside put off one thing at most and leave the pass as
it is; and once the point has ended it stays so, and who registers is given the tombstone by the call, which
runs the observer with it. -/
theorem points_end_once (run : Run client (.initial host) trail w) (hr : SinksReturn trail) (p : Nat) :
    Enacted client p trail ∧
    (∀ first m later, trail = first ++ m :: later →
      (∃ v, m.world.step client m.thread.id = some v ∧ Run client v later w ∧
        ((v.phase p).outline = (m.world.phase p).outline ∨
          Outline.Turnover p (history p first) m.thread (m.world.phase p).outline
            (v.phase p).outline)) ∧
      ((m.world.phase p).isEnded →
        (w.phase p).isEnded ∧ ∀ m' ∈ later, (m'.world.phase p).isEnded)) ∧
    (∀ owner pass, w.phase p = .dispatching owner pass → ∃ before world event below since,
      trail = before ++ ⟨world, ⟨owner, .perform (.push p event), below⟩⟩ :: since ∧
        Custody p owner below world event since w ∧
        ∀ thread ∈ w.threads, ∀ above rest, thread.stack = above ++ .serving p :: rest →
          thread.id = owner ∧ rest = below) ∧
    (∀ t below op during w' pass, Call client t below op w during w' → SinksReturn during →
      w.phase p = .dispatching t pass →
        (∀ m ∈ during, ∃ calls, m.world.phase p = .dispatching t (pass.deferring calls)) ∧
          ∃ calls, w'.phase p = .dispatching t (pass.deferring calls)) ∧
    ∀ point, w.points[p]? = some point → point.phase.isEnded → ∀ t below interest code,
      (∃ m, w.perform client t below (.register p interest code) = some m) ∧
      ∀ during w', Call client t below (.register p interest code) w during w' →
        SinksReturn during → Enacted client p during ∧
        ownActs p t below during <+:
          [point.report p .lateRegistration none, .present code .tombstone] ∧
        (w'.IsBack t below →
          ownActs p t below during =
            [point.report p .lateRegistration none, .present code .tombstone] ∧
          (w'.thread? t = some ⟨t, .resume (.registered (.ok .inert)), below⟩ ∨
            ∃ payload world, w'.thread? t = some ⟨t, .unwind payload, below⟩ ∧
              ⟨world, ⟨t, .unwind payload,
                .acts p [] (.registered (.ok .inert)) :: below⟩⟩ ∈ during)) := by
  refine ⟨run.enacted hr p, ?_, ?_, ?_, ?_⟩
  · intro first m later htrail
    obtain ⟨before, n, v, hn, hs, after⟩ := run.split htrail
    obtain ⟨hfirst, -⟩ := sinksReturn_append.mp (htrail ▸ hr)
    have hid := World.id_of_thread? hn
    have ho := (before.sound (World.initial_sound host) hfirst).orderly
    refine ⟨⟨v, hid ▸ hs, after, before.turnover hfirst hn hs⟩, ?_⟩
    intro hended
    have rest : Run client m.world (⟨m.world, m.thread⟩ :: later) w := (Run.refl.step hn hs).trans after
    obtain ⟨-, hw, hlater⟩ := rest.ended ho hended
    exact ⟨hw, fun m' hm' => hlater m' (List.mem_cons_of_mem _ hm')⟩
  · intro owner pass hphase
    exact run.one_custody hr hphase
  · intro t below op during w' pass call hr' hphase
    exact call.inside run (sinksReturn_append.mpr ⟨hr, hr'⟩) hphase
  · intro point hp hended t below interest code
    have hsound := run.sound (World.initial_sound host) hr
    refine ⟨⟨_, World.perform_register_late hp hended interest code⟩, ?_⟩
    intro during w' call hr'
    obtain ⟨hsome, hall⟩ := call.register_late hsound hr' hp hended
    refine ⟨run.enacted_later call.run hr hr' p, hsome, ?_⟩
    intro hback
    exact ⟨hall hback, call.registers_late hsound hr' hp hended hback⟩

/-- Ten steps lead into the middle of the pass of the second call. -/
theorem points_end_once_plain :
    let calls := World.runCalls plainClient () [.create "request" .recorder,
      .register 0 .active true, .push 0 (.ofResponse () true)] 10
    ∃ before world event below since,
      calls.1 = before ++ ⟨world, ⟨0, .perform (.push 0 event), below⟩⟩ :: since ∧
        Custody 0 0 below world event since calls.2 := by
  intro calls
  have run : Run plainClient (.initial ()) calls.1 calls.2 :=
    World.run_runCalls plainClient () _ 10
  obtain ⟨-, -, hpass, -⟩ := points_end_once run (by decide) 0
  obtain ⟨before, world, event, below, since, htrail, custody, -⟩ := hpass 0 _ rfl
  exact ⟨before, world, event, below, since, htrail, custody⟩

/-- A client of whose observers the startled ones panic, and all of whose sinks return. -/
def startledClient : Client Unit Unit Bool Unit :=
  { plainClient with observer := fun steady _ => if steady then .ret true else .panic .other }

/-- The panic of a callback that comes too late is not kept from the caller, who gets no handle. -/
theorem late_panic_reaches_caller :
    let calls := World.runCalls startledClient () [.create "request" .recorder,
      .register 0 .active true, .push 0 (.ofResponse () true), .register 0 .active false] 100
    SinksReturn calls.1 ∧ (calls.2.phase 0).isEnded ∧
      calls.2.thread? 0 = some ⟨0, .unwind .other, []⟩ := by
  exact ⟨by decide, rfl, rfl⟩

end Exchange
