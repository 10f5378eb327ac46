import Exchange.Proofs.Discipline
import Exchange.Proofs.Reception

/-!
What a step does to the standing of a point. The call that serves a point is a frame on the stack of
a thread, and the delivery that is under way the frame above it; the step is about one of these
frames, or the first step of a call, or it passes the point by.
-/

namespace Exchange
set_option autoImplicit false

variable {M E K H : Type} {client : Client M E K H} {w : World M E K H} {t : Nat}
variable {control : Control M E K H} {stack : List (Frame M E K H)} {m : Move M E K H}
variable {p : Nat} {v : Service} {point : Point M E K}

/-- What a thread is about to do, and its stack, while its call serves the point. -/
inductive Serves (p : Nat) (phase : Phase M E K) :
    Service → Control M E K H → List (Frame M E K H) → Prop
  | between {control below} : Clear p below → Serves p phase .between control (.serving p :: below)
  | calling {entry event below} : phase.due = some (entry, event) → Clear p below →
      Serves p phase .calling (.act (entry.act event)) (.delivering p :: .serving p :: below)
  | engaged {control below} : (∀ due, control ≠ .act due) → Clear p below →
      Serves p phase .engaged control (.delivering p :: .serving p :: below)
  | above {v control control' frame stack} : frame.attends p = false → v ≠ .calling →
      Serves p phase v control' stack → Serves p phase v control (frame :: stack)

namespace Serves
variable {phase phase' : Phase M E K} {control' : Control M E K H} {frames : List (Frame M E K H)}

theorem ne_idle (h : Serves p phase v control stack) : v ≠ .idle := by induction h <;> simp_all

theorem ne_nil (h : Serves p phase v control stack) : stack ≠ [] := by cases h <;> simp

theorem of_serving (h : Serves p phase v control (.serving p :: stack)) :
    v = .between ∧ Clear p stack := by
  cases h with
  | between hb => exact ⟨rfl, hb⟩
  | above hf => simp [Frame.attends] at hf

theorem of_delivering (h : Serves p phase v control (.delivering p :: stack)) :
    ∃ below, stack = .serving p :: below ∧ Clear p below ∧
      ((v = .calling ∧ ∃ entry event, phase.due = some (entry, event) ∧
        control = .act (entry.act event)) ∨
        v = .engaged ∧ ∀ due, control ≠ .act due) := by
  cases h with
  | @calling entry event below hdue hb =>
    exact ⟨below, rfl, hb, .inl ⟨rfl, entry, event, hdue, rfl⟩⟩
  | @engaged _ below hact hb => exact ⟨below, rfl, hb, .inr ⟨rfl, hact⟩⟩
  | above hf => simp [Frame.attends] at hf

/-- Whatever else the thread is about to do, above a delivery it must not look like giving the entry
its event. -/
theorem turns (h : Serves p phase v control stack) (hv : v ≠ .calling)
    (hact : stack.head? = some (.delivering p) → ∀ due, control' ≠ .act due) :
    Serves p phase' v control' stack := by
  induction h generalizing control' with
  | between hb => exact .between hb
  | calling => exact absurd rfl hv
  | engaged _ hb => exact .engaged (hact rfl) hb
  | above hf _ _ ih =>
    have hrest := @ih (.resume .done) hv (by simp)
    exact .above hf hv hrest

theorem of_append (h : Serves p phase v control (frames ++ stack)) (hv : v ≠ .calling)
    (hf : Clear p frames) : ∃ control, Serves p phase v control stack := by
  induction frames generalizing control with
  | nil => exact ⟨control, h⟩
  | cons frame frames ih =>
    obtain ⟨hframe, hframes⟩ := clear_cons.mp hf
    rw [List.cons_append] at h
    generalize hrest : frames ++ stack = rest at h
    cases h with
    | above _ _ h => exact ih (hrest ▸ h) hframes
    | _ => simp [Frame.attends] at hframe

theorem append (h : Serves p phase v control stack) (hv : v ≠ .calling) (hf : Clear p frames)
    (hact : frames = [] → stack.head? = some (.delivering p) → ∀ due, control' ≠ .act due) :
    Serves p phase' v control' (frames ++ stack) := by
  induction frames generalizing control' with
  | nil => exact h.turns hv (hact rfl)
  | cons frame frames ih =>
    obtain ⟨hframe, hframes⟩ := clear_cons.mp hf
    have hrest : Serves p phase' v (.resume .done) (frames ++ stack) := by
      apply ih hframes
      simp
    exact .above hframe hv hrest

end Serves

theorem Phase.turn?_of_due {phase : Phase M E K} {entry : Entry K} {event : Event M E}
    (h : phase.due = some (entry, event)) : phase.turn? = some entry := by
  cases phase <;> simp_all [Phase.due, Phase.turn?]

theorem Entry.not_isEnding_of_stays {reply : Reply M K} {entry : Entry K} (h : entry.stays reply) :
    ¬entry.isEnding := by
  cases entry <;> simp_all [Entry.stays, Entry.isEnding]

namespace World

/-! ## Steps of the thread whose call serves the point -/

/-- The call goes on serving the point, or is over. -/
def Goes (p : Nat) (v' : Service) (m : Move M E K H) : Prop :=
  (v' = .idle ∧ Clear p m.stack) ∨ Serves p (m.world.phase p) v' m.control m.stack

theorem offer_change {entry : Entry K} {event : Event M E} (hp : w.points[p]? = some point)
    (hdue : point.phase.due = some (entry, event)) (hb : Clear p stack) :
    ∃ v', Change (w.standing p .between) []
      ((w.offer stack p point entry event).world.standing p v') ∧
      Goes p v' (w.offer stack p point entry event) := by
  unfold offer
  split
  · rename_i heeds
    refine ⟨.calling, ?_, .inr (.calling ((phase_eq hp).symm ▸ hdue) hb)⟩
    rw [standing_of_getElem? hp, standing_of_getElem? hp]
    exact .calls hdue heeds
  · rename_i heeds
    refine ⟨.between, ?_, .inr (.between hb)⟩
    simp only [Move.answer, standing_of_getElem? hp, standing_setPhase_self hp]
    exact .skips hdue heeds

theorem serve_change (hc : (w.standing p .between).Coherent) (hp : w.points[p]? = some point)
    (howner : ∀ owner pass, point.phase = .dispatching owner pass → owner = t)
    (hb : Clear p stack) :
    ∃ v', Change (w.standing p .between) point.phase.progress
      ((w.serve t stack p point).world.standing p v') ∧
      Goes p v' (w.serve t stack p point) := by
  cases hphase : point.phase with
  | listening entries => cases hc.listening entries (by rw [standing_of_getElem? hp, hphase])
  | dispatching owner pass =>
    obtain rfl := howner owner pass hphase
    cases hwaiting : pass.waiting with
    | cons entry rest =>
      have hdue : point.phase.due = some (entry, pass.event) := by
        simp [hphase, Phase.due, hwaiting]
      rw [serve_of_due hdue]
      simpa [Phase.progress, hwaiting] using offer_change hp hdue hb
    | nil =>
      cases hcommit : pass.commit owner with
      | listening entries =>
        simp only [serve, hphase, Phase.progress, hwaiting, hcommit, Phase.isListening, if_true]
        refine ⟨.idle, ?_, .inl ⟨rfl, hb⟩⟩
        simp only [Move.answer, standing_of_getElem? hp, standing_setPhase_self hp, hphase]
        exact .reopens hwaiting hcommit
      | dispatching owner' next =>
        simp only [serve, hphase, Phase.progress, hwaiting, hcommit, Phase.isListening, if_true]
        refine ⟨.between, ?_, .inr (.between hb)⟩
        simp only [Move.answer, standing_of_getElem? hp, standing_setPhase_self hp, hphase]
        exact .goesOn hwaiting hcommit
      | ended farewell =>
        simp only [serve, hphase, Phase.progress, hwaiting, hcommit, Phase.isListening, if_true]
        refine ⟨.between, ?_, .inr (.between hb)⟩
        simp only [Move.answer, standing_of_getElem? hp, standing_setPhase_self hp, hphase]
        exact .ends hwaiting hcommit
  | ended farewell =>
    obtain ⟨event, waiting, late⟩ := farewell
    cases waiting with
    | cons entry rest =>
      have hdue : point.phase.due = some (entry, event) := by simp [hphase, Phase.due]
      rw [serve_of_due hdue]
      simpa [Phase.progress] using offer_change hp hdue hb
    | nil =>
      cases late with
      | cons dropped late =>
        simp only [serve, hphase, Phase.progress, Phase.dropLate, List.tail_cons]
        refine ⟨.between, ?_, .inr (.between hb)⟩
        simp only [standing_of_getElem? hp, standing_setPhase_self hp, hphase]
        exact .drops
      | nil =>
        simp only [serve, hphase, Phase.progress]
        refine ⟨.idle, ?_, .inl ⟨rfl, hb⟩⟩
        simp only [Move.answer, standing_of_getElem? hp, hphase]
        exact .retires

theorem leave_change (hc : (w.standing p .engaged).Coherent) (hp : w.points[p]? = some point)
    (stays : Entry K → Bool) (hstays : ∀ entry, stays entry → ¬entry.isEnding) :
    Change (w.standing p .engaged) (w.returns p stays (.delivering p))
      ((w.setPhase p (point.phase.advance (point.phase.turn?.any stays))).standing p .between) := by
  obtain ⟨entry, event, hdue, -⟩ := hc.turn (.inr rfl)
  have hdue : point.phase.due = some (entry, event) := (phase_eq hp).symm ▸ hdue
  have hturn := Phase.turn?_of_due hdue
  simp only [returns, if_true, phase_eq hp, hturn, Option.toList_some, List.map_cons, List.map_nil,
    Option.any_some, standing_of_getElem? hp, standing_setPhase_self hp]
  exact .leaves (stays entry) hdue (hstays entry)

theorem exists_point (hc : (w.standing p v).Coherent) (hv : v ≠ .idle) :
    ∃ point, w.points[p]? = some point := by
  cases hp : w.points[p]? with
  | some point => exact ⟨point, rfl⟩
  | none => exact absurd (hc.listening [] (by simp [standing, phase, hp])) hv

/-! ## Steps that pass a point by -/

/-- The step is about a frame of another kind, or about none. -/
def Past (p : Nat) (control : Control M E K H) (stack : List (Frame M E K H)) : Prop :=
  (∀ op, control ≠ .perform op) ∧
    (control.IsReturn → ∀ frame, stack.head? = some frame → frame.attends p = false)

theorem past_of_frame {frame : Frame M E K H} (hf : frame.attends p = false)
    (hcall : ∀ op, control ≠ .perform op) : Past p control (frame :: stack) := by
  refine ⟨hcall, ?_⟩
  rintro - other ⟨⟩
  exact hf

section
variable {q : Nat} (hne : q ≠ p)
include hne

theorem serve_elsewhere : (w.serve t stack q point).world.standing p v = w.standing p v := by
  unfold serve
  dsimp only
  repeat' split
  all_goals first | rfl | exact standing_setPhase_ne hne _

theorem serving_elsewhere (reply : Reply M K) :
    (w.resume client t stack reply (.serving q)).world.standing p v = w.standing p v := by
  simp only [resume]
  split
  · exact serve_elsewhere hne
  · rfl

theorem delivering_elsewhere (reply : Reply M K) :
    (w.resume client t stack reply (.delivering q)).world.standing p v = w.standing p v := by
  simp only [resume]
  split
  · exact standing_setPhase_ne hne _
  · rfl

theorem unwinding_elsewhere (payload : Payload) :
    (w.unwind client stack payload (.delivering q)).world.standing p v = w.standing p v := by
  simp only [unwind]
  split
  · exact standing_setPhase_ne hne _
  · rfl

end

theorem standing_of_past (hm : w.move client t stack control = some m) (h : Past p control stack) :
    m.world.standing p v = w.standing p v := by
  have stride := move_stride hm
  obtain ⟨hcall, htop⟩ := h
  -- the frame of another point
  have other {q : Nat} (hreturn : control.IsReturn)
      (h : stack.head? = some (.serving q) ∨ stack.head? = some (.delivering q)) : q ≠ p := by
    rcases h with h | h <;> simpa [Frame.attends] using htop hreturn _ h
  cases stride with
  | changes _ hcalm => exact standing_congr hcalm.points
  | answers => exact absurd rfl (hcall _)
  | owes => exact absurd rfl (hcall _)
  | serves => exact absurd rfl (hcall _)
  | emits => exact absurd rfl (hcall _)
  | attempts => exact absurd rfl (hcall _)
  | forks => exact absurd rfl (hcall _)
  | forksAndWaits => exact absurd rfl (hcall _)
  | joins _ h => exact standing_congr (h.elim (·.points) (·.points))
  | joinsPanic _ h => exact standing_congr h.points
  | acts hcalm => exact standing_congr hcalm.points
  | records hcalm => exact standing_congr hcalm.points
  | fansOn _ _ hcalm => exact standing_congr hcalm.points
  | runsOn _ _ _ hcalm => exact standing_congr hcalm.points
  | closes _ _ hcalm => exact standing_congr hcalm.points
  | pops _ _ hcalm => exact standing_congr hcalm.points
  | advances => exact Option.some.inj hm ▸ serving_elsewhere (other trivial (.inl rfl)) _
  | drops => exact Option.some.inj hm ▸ serving_elsewhere (other trivial (.inl rfl)) _
  | retires => exact Option.some.inj hm ▸ serving_elsewhere (other trivial (.inl rfl)) _
  | leaves hreturn =>
    have hne := other hreturn (.inr rfl)
    cases control <;> first | exact hreturn.elim | skip
    · exact Option.some.inj hm ▸ delivering_elsewhere hne _
    · exact Option.some.inj hm ▸ unwinding_elsewhere hne _
  | catches => exact Option.some.inj hm ▸ unwinding_elsewhere (other trivial (.inr rfl)) _
  | _ => rfl

theorem clear_of_past {gone come rest : List (Frame M E K H)}
    (shape : Shape control stack m gone come rest) (h : Past p control stack) :
    Clear p gone ∧ Clear p come := by
  have hgone : Clear p gone := by
    rcases shape.popped with rfl | ⟨hreturn, frame, rfl⟩
    · exact clear_nil
    · simpa using h.2 hreturn frame (by rw [shape.before]; rfl)
  exact ⟨hgone, shape.pushed p hgone h.1⟩

theorem happenings_of_past {n : Nat} (h : Past p control stack) (hact : ∀ due, control ≠ .act due) :
    Moment.happenings p ⟨w, ⟨n, control, stack⟩⟩ = [] := by
  obtain ⟨hcall, htop⟩ := h
  cases control with
  | perform op => exact absurd rfl (hcall op)
  | act due => exact absurd rfl (hact due)
  | resume reply =>
    cases stack with
    | nil => rfl
    | cons frame stack =>
      have hframe := htop trivial frame rfl
      cases frame <;> first | rfl | simp_all [Moment.happenings, returns, Frame.attends]
  | unwind payload =>
    cases stack with
    | nil => rfl
    | cons frame stack =>
      have hframe := htop trivial frame rfl
      cases frame <;> first | rfl | simp_all [Moment.happenings, returns, Frame.attends]
  | _ => rfl

theorem does_aside {due : Act M E K} {top : Option (Frame M E K H)}
    (h : top ≠ some (.delivering p)) (s : Standing M E K) : Change s (w.does p top due) s := by
  have hne {q : Nat} (hq : top = some (.delivering q)) : q ≠ p := by
    rintro rfl
    exact h hq
  cases due with
  | report sink kind label reason =>
    simp only [does]
    split
    · exact .aside trivial
    · exact .rests
  | present code event =>
    simp only [does]
    split
    · rename_i q
      simp only [hne rfl, if_false]
      split <;> exact .rests
    · split
      · exact .aside trivial
      · exact .rests
    · exact .rests
  | notify ticket notice =>
    simp only [does]
    split
    · rename_i q
      simp only [hne rfl, if_false]
      exact .rests
    · split
      · exact .aside trivial
      · exact .rests
    · exact .rests
  | _ => exact .rests

theorem does_given {entry : Entry K} {event : Event M E}
    (hdue : (w.phase p).due = some (entry, event)) :
    w.does p (some (.delivering p : Frame M E K H)) (entry.act event) =
      [entry.given event (w.phase p).occasion] := by
  cases entry <;> simp [does, Entry.act, Entry.given, Phase.turn?_of_due hdue]

theorem change_of_past {n : Nat} (h : Past p control stack)
    (hact : ∀ due, control = .act due → stack.head? ≠ some (.delivering p)) (s : Standing M E K) :
    Change s (Moment.happenings p ⟨w, ⟨n, control, stack⟩⟩) s := by
  cases control with
  | act due => exact does_aside (hact due rfl) s
  | _ =>
    rw [happenings_of_past h (by simp)]
    exact .rests

section
variable {n : Nat} (hm : w.move client t stack control = some m)
  (hd : Thread.Disciplined ⟨n, control, stack⟩)
include hm hd

theorem serving_past (h : Past p control stack) (hv : v ≠ .calling)
    (hs : Serves p (w.phase p) v control stack) :
    Change (w.standing p v) (Moment.happenings p ⟨w, ⟨n, control, stack⟩⟩) (m.world.standing p v) ∧
      Goes p v m := by
  have stride := move_stride hm
  constructor
  · rw [standing_of_past hm h]
    refine change_of_past h ?_ _
    intro due hdue htop
    cases stack with
    | nil => cases htop
    | cons frame rest =>
      cases htop
      obtain ⟨-, -, -, ⟨rfl, -⟩ | ⟨rfl, hact⟩⟩ := hs.of_delivering
      · exact hv rfl
      · exact hact due hdue
  · obtain ⟨gone, come, rest, shape⟩ := stride.shape hd.stacked.seated
    obtain ⟨hgone, hcome⟩ := clear_of_past shape h
    obtain ⟨hrest, hs⟩ := (shape.before ▸ hs).of_append hv hgone
    right
    rw [shape.after]
    refine hs.append hv hcome ?_
    intro hnil htop due hdue
    rcases shape.act hnil due hdue with ⟨op, hop⟩ | ⟨q, hq⟩
    · exact h.1 op hop
    · cases hq.symm.trans htop

theorem serving_step (hc : (w.standing p v).Coherent)
    (howner : ∀ owner pass, w.phase p = .dispatching owner pass → owner = t)
    (hs : Serves p (w.phase p) v control stack) :
    ∃ v', Change (w.standing p v) (Moment.happenings p ⟨w, ⟨n, control, stack⟩⟩)
      (m.world.standing p v') ∧ Goes p v' m := by
  obtain ⟨point, hp⟩ := exists_point hc hs.ne_idle
  rw [phase_eq hp] at howner
  -- only an entry that is about to be given its event is `calling`
  have calm (hact : ∀ due, control ≠ .act due) : v ≠ .calling := by
    rintro rfl
    cases hs with
    | calling => exact hact _ rfl
    | above _ hv => exact hv rfl
  cases control with
  | perform op =>
    cases perform_performs hc hm with
    | passes frames hstack hclear _ hchange =>
      refine ⟨v, hchange, .inr ?_⟩
      rw [hstack]
      refine hs.append (calm (by simp)) hclear ?_
      intro _ htop
      exact absurd htop (hd.fits.2 p)
    | serves hidle => exact absurd hidle hs.ne_idle
  | act due =>
    by_cases htop : stack.head? = some (.delivering p)
    · cases stack with
      | nil => cases htop
      | cons frame rest =>
        cases htop
        obtain ⟨below, rfl, hb, ⟨rfl, entry, event, hdue, hcontrol⟩ | ⟨-, hact⟩⟩ := hs.of_delivering
        · obtain rfl := Control.act.inj hcontrol
          refine ⟨.engaged, ?_, .inr ?_⟩
          · change Change _ (w.does p (some (.delivering p)) _) _
            rw [does_given hdue, standing_of_past hm ⟨by simp, fun h => h.elim⟩]
            exact .gives hdue
          · have stride := move_stride hm
            obtain ⟨-, hleads, hstack⟩ := stride.of_act
            rw [hstack]
            refine .engaged ?_ hb
            intro other hother
            exact Act.not_leadsTo_act (hother ▸ hleads)
        · exact absurd rfl (hact due)
    · have hv : v ≠ .calling := by
        rintro rfl
        cases hs with
        | calling => exact htop rfl
        | above _ hv => exact hv rfl
      exact ⟨v, serving_past hm hd ⟨by simp, fun h => h.elim⟩ hv hs⟩
  | resume reply =>
    cases stack with
    | nil => exact absurd rfl hs.ne_nil
    | cons frame rest =>
      by_cases hframe : frame.attends p
      · rcases Frame.attends_iff.mp hframe with rfl | rfl
        · obtain ⟨rfl, hb⟩ := hs.of_serving
          cases hm
          simp only [resume, hp, Moment.happenings, returns, if_true, phase_eq hp]
          exact serve_change hc hp howner hb
        · obtain ⟨below, rfl, hb, ⟨-, entry, event, -, hcontrol⟩ | ⟨rfl, -⟩⟩ := hs.of_delivering
          · cases hcontrol
          · cases hm
            simp only [resume, hp, Moment.happenings]
            exact ⟨.between, leave_change hc hp _ fun _ => Entry.not_isEnding_of_stays,
              .inr (.between hb)⟩
      · exact ⟨v, serving_past hm hd (past_of_frame (by simpa using hframe) (by simp))
          (calm (by simp)) hs⟩
  | unwind payload =>
    cases stack with
    | nil => exact absurd rfl hs.ne_nil
    | cons frame rest =>
      by_cases hframe : frame.attends p
      · rcases Frame.attends_iff.mp hframe with rfl | rfl
        · exact absurd trivial (hd.fits _ rfl)
        · obtain ⟨below, rfl, hb, ⟨-, entry, event, -, hcontrol⟩ | ⟨rfl, -⟩⟩ := hs.of_delivering
          · cases hcontrol
          · cases hm
            simp only [unwind, hp, Moment.happenings]
            have hchange := leave_change hc hp (fun _ => false) (by simp)
            simp only [Option.any_false] at hchange
            exact ⟨.between, hchange, .inr (.between hb)⟩
      · exact ⟨v, serving_past hm hd (past_of_frame (by simpa using hframe) (by simp))
          (calm (by simp)) hs⟩
  | eval code => exact ⟨v, serving_past hm hd ⟨by simp, fun h => h.elim⟩ (calm (by simp)) hs⟩
  | deliver sink diagnostic =>
    exact ⟨v, serving_past hm hd ⟨by simp, fun h => h.elim⟩ (calm (by simp)) hs⟩
  | await child => exact ⟨v, serving_past hm hd ⟨by simp, fun h => h.elim⟩ (calm (by simp)) hs⟩

/-- A step of a thread whose call does not serve the point; its call may begin to. -/
theorem clear_step (hc : (w.standing p v).Coherent)
    (howner : v ≠ .idle → ∀ pass, w.phase p ≠ .dispatching t pass) (hs : Clear p stack) :
    (Change (w.standing p v) (Moment.happenings p ⟨w, ⟨n, control, stack⟩⟩)
        (m.world.standing p v) ∧
      Clear p m.stack ∧ (v ≠ .idle → m.world.phase p = w.phase p)) ∨
    (v = .idle ∧
      Change (w.standing p .idle) (Moment.happenings p ⟨w, ⟨n, control, stack⟩⟩)
        (m.world.standing p .between) ∧
      Serves p (m.world.phase p) .between m.control m.stack ∧
      ∀ owner pass, m.world.phase p = .dispatching owner pass → owner = t) := by
  by_cases hcall : ∃ op, control = .perform op
  · obtain ⟨op, rfl⟩ := hcall
    cases perform_performs hc hm with
    | passes frames hstack hclear _ hchange hphase =>
      refine .inl ⟨hchange, ?_, ?_⟩
      · rw [hstack]
        exact clear_append.mpr ⟨hclear, hs⟩
      · intro hv
        exact hphase hv (howner hv)
    | serves hidle _ hstack _ hchange howner =>
      exact .inr ⟨hidle, hchange, hstack ▸ .between hs, howner⟩
  · left
    have hpast : Past p control stack := by
      constructor
      · intro op h
        exact hcall ⟨op, h⟩
      · intro _ frame hframe
        exact hs frame (List.mem_of_mem_head? hframe)
    have stride := move_stride hm
    obtain ⟨gone, come, rest, shape⟩ := stride.shape hd.stacked.seated
    refine ⟨?_, ?_, ?_⟩
    · rw [standing_of_past hm hpast]
      refine change_of_past hpast ?_ _
      intro _ _ htop
      simpa [Frame.attends] using hs _ (List.mem_of_mem_head? htop)
    · rw [shape.after]
      rw [shape.before] at hs
      exact clear_append.mpr ⟨(clear_of_past shape hpast).2, (clear_append.mp hs).2⟩
    · intro _
      exact congrArg Standing.phase (standing_of_past (v := v) hm hpast)

end

end World
end Exchange
