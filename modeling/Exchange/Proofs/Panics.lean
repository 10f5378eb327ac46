import Exchange.Proofs.Chronicle

/-!
Panics and passes. A pass is open only while a call that serves the point is on the stack of the
thread to which the pass belongs, whatever callbacks and sinks do. What stands above such a call keeps
panics from it, with one exception: a sink that is told of a callback's panic, and panics itself. That
panic leaves the call behind and the pass open.
-/

namespace Exchange
set_option autoImplicit false

variable {M E K H : Type} {client : Client M E K H} {w w' : World M E K H} {t n : Nat}
  {thread : Thread M E K H}
variable {control : Control M E K H} {stack : List (Frame M E K H)} {m : Move M E K H}
variable {p : Nat} {s s' : Standing M E K} {happenings : List (Happening M E K)}

/-- A sink panics that is told of a panic in a pass of the point, and no set of sinks keeps its panic
from the call that serves the point. -/
def Moment.breaksPass (p : Nat) (m : Moment M E K H) : Bool :=
  match m.thread with
  | ⟨_, .unwind _, .receiving :: .serving q :: _⟩ => q = p && !(m.world.phase p).isEnded
  | _ => false

/-! ## What stands above a call that serves the point -/

/-- What stands above such a call keeps panics from it. -/
def Guarded (p : Nat) : List (Frame M E K H) → Prop
  | [] => True
  | frame :: stack => (stack.head? = some (.serving p) → frame.IsShield) ∧ Guarded p stack

/-- What a thread can be about to do right above such a call. A panic comes there only after the
end. -/
def Control.IsGuarded (phase : Phase M E K) : Control M E K H → Prop
  | .resume _ | .deliver _ _ => True
  | .act due => due.IsGentle
  | .unwind _ => phase.isEnded
  | _ => False

structure Thread.Guards (p : Nat) (phase : Phase M E K) (thread : Thread M E K H) : Prop where
  guarded : Guarded p thread.stack
  control : thread.stack.head? = some (.serving p) → thread.control.IsGuarded phase

theorem guarded_fanOut {frames : List (Frame M E K H)} (hf : ∀ frame ∈ frames, frame.IsFanOut)
    (hs : Guarded p stack) : Guarded p (frames ++ stack) := by
  induction frames with
  | nil => exact hs
  | cons frame frames ih =>
    refine ⟨fun _ => (hf frame List.mem_cons_self).isShield, ih ?_⟩
    intro other hother
    exact hf other (List.mem_cons_of_mem _ hother)

/-- A frame that is no shield does not stand right above such a call. -/
theorem Guarded.not_serving {frame : Frame M E K H} (h : Guarded p (frame :: stack))
    (hf : ¬frame.IsShield) : stack.head? ≠ some (.serving p) := fun htop => hf (h.1 htop)

theorem Thread.Guards.mono {phase phase' : Phase M E K} (h : thread.Guards p phase)
    (hended : phase.isEnded → phase'.isEnded) : thread.Guards p phase' := by
  refine ⟨h.guarded, ?_⟩
  intro htop
  have hcontrol := h.control htop
  cases hc : thread.control with
  | unwind payload =>
    rw [hc] at hcontrol
    exact hended hcontrol
  | _ =>
    rw [hc] at hcontrol
    exact hcontrol

theorem Thread.Begins.guards {phase : Phase M E K} (h : thread.Begins) :
    thread.Guards p phase := by
  cases h with
  | bare h => constructor <;> simp [h.stack_eq, Guarded]
  | turn => constructor <;> simp [Guarded]
  | closing => constructor <;> simp [Guarded]

/-- A step keeps the guard, unless it is a sink that breaks the pass. -/
theorem Stride.guards (h : Stride client w t control stack m)
    (hg : Thread.Guards p (w.phase p) ⟨n, control, stack⟩)
    (hb : Moment.breaksPass p ⟨w, ⟨n, control, stack⟩⟩ = false) :
    Thread.Guards p (m.world.phase p) ⟨n, m.control, m.stack⟩ := by
  obtain ⟨hguarded, hcontrol⟩ := hg
  dsimp only at hguarded hcontrol
  -- code, and the first step of a call, do not run right above a call that serves the point
  have clear {code : Control M E K H} (h : stack.head? ≠ some (.serving p)) :
      stack.head? = some (.serving p) → code.IsGuarded (m.world.phase p) :=
    fun htop => absurd htop h
  cases h with
  | returns => exact ⟨hguarded, fun _ => trivial⟩
  | panics => exact ⟨hguarded, clear hcontrol⟩
  | changes => exact ⟨hguarded, clear hcontrol⟩
  | calls => exact ⟨⟨fun htop => (hcontrol htop).elim, hguarded⟩, by simp⟩
  | answers => exact ⟨hguarded, fun _ => trivial⟩
  | owes => exact ⟨⟨fun htop => (hcontrol htop).elim, hguarded⟩, by simp⟩
  | serves => exact ⟨⟨fun htop => (hcontrol htop).elim, hguarded⟩, fun _ => trivial⟩
  | emits => exact ⟨hguarded, clear hcontrol⟩
  | attempts => exact ⟨⟨fun htop => (hcontrol htop).elim, hguarded⟩, by simp⟩
  | forks => exact ⟨hguarded, fun _ => trivial⟩
  | forksAndWaits => exact ⟨hguarded, clear hcontrol⟩
  | joins => exact ⟨hguarded, fun _ => trivial⟩
  | joinsPanic => exact ⟨hguarded, clear hcontrol⟩
  | @acts act _ _ next _ hleads =>
    refine ⟨hguarded, ?_⟩
    intro htop
    have hgentle : act.IsGentle := hcontrol htop
    rcases hleads.control_cases with ⟨_, _, _, _, -, rfl⟩ | rfl | ⟨hungentle, -⟩
    · exact trivial
    · exact trivial
    · exact absurd hgentle hungentle
  | tells => exact ⟨⟨fun _ => trivial, hguarded⟩, by simp⟩
  | records => exact ⟨hguarded, fun _ => trivial⟩
  | fansOut hf =>
    refine ⟨⟨fun _ => hf.isShield, hguarded⟩, fun _ => trivial⟩
  | goesOn => exact ⟨hguarded.2, fun htop => absurd htop (hguarded.not_serving id)⟩
  | handsOn _ _ _ hf => exact ⟨⟨fun _ => hf.isShield, hguarded.2⟩, fun _ => trivial⟩
  | fansOn _ _ _ _ hf => exact ⟨guarded_fanOut hf hguarded.2, fun _ => trivial⟩
  | runsOn =>
    exact ⟨⟨fun htop => absurd htop (hguarded.not_serving id), hguarded.2⟩, by simp⟩
  | closes =>
    refine ⟨⟨by simp, fun htop => absurd htop (hguarded.not_serving id), hguarded.2⟩, ?_⟩
    simp
  | pops => exact ⟨hguarded.2, fun _ => trivial⟩
  | @unwinds _ frame payload hnot hfan =>
    refine ⟨hguarded.2, ?_⟩
    intro htop
    have hshield := hguarded.1 htop
    cases frame with
    | receiving =>
      obtain ⟨below, rfl⟩ := List.head?_eq_some_iff.mp htop
      have hended : (w.phase p).isEnded := by simpa [Moment.breaksPass] using hb
      exact hended
    | delivering q => exact absurd rfl (hnot q)
    | fanOut => exact absurd trivial hfan
    | _ => exact hshield.elim
  | settles => exact ⟨hguarded.2, fun _ => trivial⟩
  | proceeds =>
    exact ⟨⟨fun htop => absurd htop (hguarded.not_serving id), hguarded.2⟩, by simp⟩
  | gives => exact ⟨⟨fun _ => trivial, hguarded⟩, by simp⟩
  | advances => exact ⟨hguarded, fun _ => trivial⟩
  | drops => exact ⟨hguarded, fun _ => trivial⟩
  | retires => exact ⟨hguarded.2, fun _ => trivial⟩
  | leaves => exact ⟨hguarded.2, fun _ => trivial⟩
  | catches => exact ⟨hguarded.2, fun _ => trivial⟩

/-! ## To whom a pass belongs -/

theorem Change.ended (h : Change s happenings s') (hs : s.phase.isEnded) : s'.phase.isEnded := by
  cases h with
  | rests => exact hs
  | aside => exact hs
  | awaitsLate => exact hs
  | unregistersLate => exact hs
  | pushesLate => exact hs
  | calls => exact hs
  | @skips phase => cases phase <;> exact hs
  | gives => exact hs
  | @leaves phase => cases phase <;> exact hs
  | drops => rfl
  | retires => rfl
  | _ => cases hs

/-- A pass goes on, or begins with a call that begins to serve the point. -/
theorem Change.opens (h : Change s happenings s') {owner : Nat} {pass : Pass M E K}
    (hp : s'.phase = .dispatching owner pass) :
    (∃ pass, s.phase = .dispatching owner pass) ∨ s'.service ≠ s.service := by
  by_cases hs : s.service = .idle
  · cases h with
    | rests => exact .inl ⟨pass, hp⟩
    | aside => exact .inl ⟨pass, hp⟩
    | pushes => exact .inr (by simp)
    | awaitsInside =>
      cases hp
      exact .inl ⟨_, rfl⟩
    | unregistersInside =>
      cases hp
      exact .inl ⟨_, rfl⟩
    | pushesInside =>
      cases hp
      exact .inl ⟨_, rfl⟩
    | calls => cases hs
    | gives => cases hs
    | goesOn => cases hs
    | skips => cases hs
    | leaves => cases hs
    | _ => cases hp
  · exact .inl (h.owner hs hp)

/-- What a service of the point would have to be, if the point were served by anybody. -/
def Phase.service : Phase M E K → Service
  | .listening _ => .idle
  | _ => .between

namespace World
variable {point : Point M E K}

theorem standing_coherent (w : World M E K H) (p : Nat) :
    (w.standing p (w.phase p).service).Coherent := by
  cases hphase : w.phase p <;> constructor <;> simp [standing, hphase, Phase.service]

theorem phase_setPhase (hp : w.points[p]? = some point) (phase : Phase M E K) :
    (w.setPhase p phase).phase p = phase :=
  congrArg Standing.phase (standing_setPhase_self (v := .idle) hp phase)

/-- What a step makes of the phase of a point. -/
structure Follows (w : World M E K H) (t p : Nat) (m : Move M E K H) : Prop where
  ended : (w.phase p).isEnded → (m.world.phase p).isEnded
  opens : ∀ owner pass, m.world.phase p = .dispatching owner pass →
    (∃ pass, w.phase p = .dispatching owner pass) ∨ owner = t ∧ .serving p ∈ m.stack

theorem follows_same (h : m.world.phase p = w.phase p) : Follows w t p m := by
  constructor
  · intro hended
    exact h ▸ hended
  · intro owner pass hpass
    exact .inl ⟨pass, h ▸ hpass⟩

theorem perform_follows {op : Op M E K} (hm : w.move client t stack (.perform op) = some m) :
    Follows w t p m := by
  cases perform_performs (w.standing_coherent p) hm with
  | passes _ _ _ _ hchange =>
    refine ⟨hchange.ended, ?_⟩
    intro owner pass hpass
    exact .inl ((hchange.opens hpass).resolve_right (by simp [standing]))
  | serves _ _ hstack _ hchange howner =>
    refine ⟨hchange.ended, ?_⟩
    intro owner pass hpass
    refine .inr ⟨howner owner pass hpass, ?_⟩
    rw [hstack]
    exact List.mem_cons_self

theorem advance_follows (stays : Bool) (hp : w.points[p]? = some point)
    (hphase : m.world.phase p = point.phase.advance stays) : Follows w t p m := by
  have hbefore := phase_eq hp
  constructor
  · intro hended
    rw [hbefore] at hended
    rw [hphase]
    cases h : point.phase <;> simp_all [Phase.isEnded, Phase.advance]
  · intro owner pass hpass
    left
    rw [hbefore]
    exact Phase.owner_of_advance (hphase ▸ hpass)

/-- The call that serves the point goes on, or no pass is open. -/
theorem serve_follows (hp : w.points[p]? = some point) :
    Follows w t p (w.serve t stack p point) ∧
      (.serving p ∈ (w.serve t stack p point).stack ∨
        ∀ owner pass, (w.serve t stack p point).world.phase p ≠ .dispatching owner pass) := by
  cases hdue : point.phase.due with
  | some turn =>
    obtain ⟨entry, event⟩ := turn
    rw [serve_of_due hdue]
    unfold offer
    split
    · exact ⟨follows_same rfl, .inl (by simp)⟩
    · exact ⟨advance_follows true hp (phase_setPhase hp _), .inl (by simp [Move.answer])⟩
  | none =>
    have hbefore := phase_eq hp
    cases hphase : point.phase with
    | listening entries =>
      simp only [serve, hphase]
      refine ⟨follows_same rfl, .inr ?_⟩
      intro owner pass hpass
      cases hpass.symm.trans (hbefore.trans hphase)
    | dispatching owner pass =>
      have hopen : ¬(w.phase p).isEnded := by simp [hbefore, hphase, Phase.isEnded]
      have hwaiting : pass.waiting = [] := by simpa [hphase, Phase.due] using hdue
      have hafter := phase_setPhase hp (pass.commit t)
      have heq : w.serve t stack p point = .answer (w.setPhase p (pass.commit t))
          (if (pass.commit t).isListening then stack else .serving p :: stack) .done := by
        simp only [serve, hphase, hwaiting]
      rw [heq]
      dsimp only [Move.answer]
      cases hcommit : pass.commit t with
      | listening entries =>
        rw [hcommit] at hafter
        refine ⟨⟨fun h => absurd h hopen, ?_⟩, .inr ?_⟩
        · intro owner' pass' hpass
          cases hafter.symm.trans hpass
        · intro owner' pass' hpass
          cases hafter.symm.trans hpass
      | dispatching owner' next =>
        rw [hcommit] at hafter
        obtain ⟨-, -, rfl, -⟩ := Pass.commit_dispatching hcommit
        refine ⟨⟨fun h => absurd h hopen, ?_⟩, .inl List.mem_cons_self⟩
        intro owner' pass' hpass
        cases hafter.symm.trans hpass
        exact .inr ⟨rfl, List.mem_cons_self⟩
      | ended farewell =>
        rw [hcommit] at hafter
        refine ⟨⟨fun h => absurd h hopen, ?_⟩, .inl List.mem_cons_self⟩
        intro owner' pass' hpass
        cases hafter.symm.trans hpass
    | ended farewell =>
      have hwaiting : farewell.waiting = [] := by simpa [hphase, Phase.due] using hdue
      cases hlate : farewell.late with
      | cons dropped late =>
        have hafter := phase_setPhase hp (Phase.dropLate (.ended farewell))
        simp only [serve, hphase, hwaiting, hlate]
        refine ⟨⟨?_, ?_⟩, .inl List.mem_cons_self⟩
        · intro _
          exact congrArg Phase.isEnded hafter
        · intro owner' pass' hpass
          cases hafter.symm.trans hpass
      | nil =>
        simp only [serve, hphase, hwaiting, hlate]
        refine ⟨follows_same rfl, .inr ?_⟩
        intro owner' pass' hpass
        cases hpass.symm.trans (hbefore.trans hphase)

theorem resume_follows (reply : Reply M K) :
    Follows w t p (w.resume client t stack reply (.serving p)) ∧
      (.serving p ∈ (w.resume client t stack reply (.serving p)).stack ∨
        ∀ owner pass,
          (w.resume client t stack reply (.serving p)).world.phase p ≠ .dispatching owner pass) := by
  simp only [resume]
  split
  · rename_i point hp
    exact serve_follows hp
  · rename_i hp
    refine ⟨follows_same rfl, .inr ?_⟩
    simp [Move.answer, phase, hp]

theorem move_follows (hm : w.move client t stack control = some m) : Follows w t p m := by
  by_cases hpast : Past p control stack
  · exact follows_same (congrArg Standing.phase (standing_of_past (v := .idle) hm hpast))
  cases control with
  | perform op => exact perform_follows hm
  | resume reply =>
    cases stack with
    | nil => cases hm
    | cons frame stack =>
      cases hm
      by_cases hframe : frame.attends p
      · rcases Frame.attends_iff.mp hframe with rfl | rfl
        · exact (resume_follows reply).1
        · simp only [resume]
          split
          · rename_i point hp
            exact advance_follows _ hp (phase_setPhase hp _)
          · exact follows_same rfl
      · exact absurd (past_of_frame (by simpa using hframe) (by simp)) hpast
  | unwind payload =>
    cases stack with
    | nil => cases hm
    | cons frame stack =>
      cases hm
      by_cases hframe : frame.attends p
      · rcases Frame.attends_iff.mp hframe with rfl | rfl
        · exact follows_same rfl
        · simp only [unwind]
          split
          · rename_i point hp
            exact advance_follows _ hp (phase_setPhase hp _)
          · exact follows_same rfl
      · exact absurd (past_of_frame (by simpa using hframe) (by simp)) hpast
  | _ => exact absurd ⟨by simp, fun h => h.elim⟩ hpast

/-- While a pass is open, the calls that serve the point stay where they are. -/
theorem serving_kept (hm : w.move client t stack control = some m)
    (hg : Thread.Guards p (w.phase p) ⟨n, control, stack⟩) (hs : .serving p ∈ stack)
    {owner : Nat} {pass : Pass M E K} (hpass : m.world.phase p = .dispatching owner pass) :
    .serving p ∈ m.stack := by
  cases move_stride hm with
  | @unwinds _ frame =>
    rcases List.mem_cons.mp hs with rfl | hs
    · have hended : (w.phase p).isEnded := hg.control rfl
      rw [hpass] at hended
      cases hended
    · exact hs
  | @retires reply rest =>
    rcases List.mem_cons.mp hs with hq | hs
    · cases hq
      have hmove : w.resume client t rest reply (.serving p) = _ := Option.some.inj hm
      have hkept := (hmove ▸ resume_follows reply).2
      exact hkept.resolve_right fun h => h owner pass hpass
    · exact hs
  | fansOn frames _ _ hfan =>
    rcases List.mem_cons.mp hs with rfl | hs
    · exact hfan.elim
    · exact List.mem_append_right _ hs
  | pops _ _ _ hplain =>
    rcases List.mem_cons.mp hs with rfl | hs
    · exact hplain.elim
    · exact hs
  | handsOn _ _ hfan =>
    rcases List.mem_cons.mp hs with rfl | hs
    · exact hfan.elim
    · exact List.mem_cons_of_mem _ hs
  | _ => simp_all

/-- A pass belongs to a thread on whose stack is a call that serves the point, and what stands above
such a call keeps panics from it. -/
structure Manned (w : World M E K H) (p : Nat) : Prop where
  orderly : w.Orderly
  guards : ∀ thread ∈ w.threads, thread.Guards p (w.phase p)
  owned : ∀ owner pass, w.phase p = .dispatching owner pass →
    ∃ thread ∈ w.threads, thread.id = owner ∧ .serving p ∈ thread.stack

theorem initial_manned (host : H) (p : Nat) : (initial host : World M E K H).Manned p := by
  refine ⟨initial_orderly host, ?_, ?_⟩
  · intro thread hthread
    rw [List.mem_singleton.mp hthread]
    exact Thread.Begins.guards (.bare trivial)
  · intro owner pass hpass
    simp [phase, initial] at hpass

theorem Manned.of_step (h : w.Manned p) (ht : w.thread? t = some thread)
    (hs : w.step client t = some w') (hb : Moment.breaksPass p ⟨w, thread⟩ = false) :
    w'.Manned p := by
  obtain ⟨⟨m, hm, stepped⟩, ho⟩ := step_stepped h.orderly ht hs
  have hguards := h.guards thread (mem_of_thread? ht)
  have hphase : w'.phase p = m.world.phase p := by simp only [phase, stepped.points]
  have hfollows : Follows w t p m := move_follows hm
  refine ⟨ho, ?_, ?_⟩
  · intro other hother
    rw [hphase]
    rcases stepped.succession.others_after hother with rfl | hbefore | hbare
    · exact stepped.stride.guards hguards hb
    · exact (h.guards other hbefore).mono hfollows.ended
    · exact Thread.Begins.guards (.bare hbare)
  · intro owner pass hpass
    rw [hphase] at hpass
    have self := stepped.succession.mem_after
    rcases hfollows.opens owner pass hpass with ⟨before, hbefore⟩ | ⟨rfl, hserving⟩
    · obtain ⟨server, hserver, hid, hserving⟩ := h.owned owner before hbefore
      rcases stepped.succession.others_before hserver with rfl | hafter | hbare
      · exact ⟨_, self, hid, serving_kept hm hguards hserving hpass⟩
      · exact ⟨server, hafter, hid, hserving⟩
      · rw [hbare.stack_eq] at hserving
        cases hserving
    · exact ⟨_, self, stepped.id, hserving⟩

theorem Manned.of_between (h : w.Manned p) (hb : Between client w w') : w'.Manned p := by
  obtain ⟨⟨hpoints, come, gone, kept, hbefore, hafter, hgone, hcome⟩, ho⟩ :=
    between_interlude h.orderly hb
  have hphase : w'.phase p = w.phase p := by simp only [phase, hpoints]
  refine ⟨ho, ?_, ?_⟩
  · intro other hother
    rw [hphase]
    rcases List.mem_append.mp (hafter.mem_iff.mp hother) with hnew | hkept
    · exact (hcome other hnew).guards
    · exact h.guards other (hbefore.mem_iff.mpr (List.mem_append_right _ hkept))
  · intro owner pass hpass
    obtain ⟨server, hserver, hid, hserving⟩ := h.owned owner pass (hphase ▸ hpass)
    rcases List.mem_append.mp (hbefore.mem_iff.mp hserver) with hold | hkept
    · rw [(hgone server hold).stack_eq] at hserving
      cases hserving
    · exact ⟨server, hafter.mem_iff.mpr (List.mem_append_right _ hkept), hid, hserving⟩

end World

theorem Run.manned {u : World M E K H} {trail : List (Moment M E K H)} (run : Run client u trail w)
    (hu : u.Manned p) (hb : ∀ m ∈ trail, m.breaksPass p = false) : w.Manned p := by
  induction run with
  | refl => exact hu
  | step _ ht hstep ih =>
    refine (ih fun m hm => hb m (List.mem_append_left _ hm)).of_step ht hstep ?_
    exact hb _ (List.mem_append_right _ List.mem_cons_self)
  | between _ hbetween ih => exact (ih hb).of_between hbetween

namespace World
variable {point : Point M E K} {below : List (Frame M E K H)}

/-- A push on a point without an open pass opens one for all on the list, or is reported as late. -/
theorem push_at_rest (hp : w.points[p]? = some point)
    (hrests : (w.phase p).isListening ∨ (w.phase p).isEnded) (event : Event M E) :
    ∃ m, w.perform client t below (.push p event) = some m ∧
      ((∃ entries, w.phase p = .listening entries ∧
          m.world.phase p = .dispatching t { event, waiting := entries } ∧
          m.stack = .serving p :: below) ∨
        (w.phase p).isEnded ∧ m.stack =
          .acts p [point.report p .lateEvent (some event.lateName)] .done :: below) := by
  have hphase := phase_eq hp
  rw [hphase] at hrests ⊢
  cases h : point.phase with
  | listening entries =>
    refine ⟨.serve (w.setPhase p (.dispatching t { event, waiting := entries })) below p, ?_,
      .inl ⟨entries, rfl, phase_setPhase hp _, rfl⟩⟩
    simp only [perform, hp, push, h, Phase.access, Phase.isEnded, Phase.openPass]
    rfl
  | dispatching => simp [h, Phase.isListening, Phase.isEnded] at hrests
  | ended farewell =>
    refine ⟨.acts w below p [point.report p .lateEvent (some event.lateName)] .done, ?_,
      .inr ⟨rfl, rfl⟩⟩
    simp only [perform, hp, push, h, Phase.access, Phase.isEnded, if_true]

/-- An observer that comes to a point without an open pass is not refused. -/
theorem register_at_rest (hp : w.points[p]? = some point)
    (hrests : (w.phase p).isListening ∨ (w.phase p).isEnded) (interest : Interest) (code : K) :
    ∃ m handle, w.perform client t below (.register p interest code) = some m ∧
      (m.control = .resume (.registered (.ok handle)) ∧ m.stack = below ∨
        m.stack = .acts p [point.report p .lateRegistration none, .present code .tombstone]
          (.registered (.ok handle)) :: below) := by
  rw [phase_eq hp] at hrests
  cases h : point.phase with
  | listening entries =>
    let joined : Point M E K := { point with
      phase := .listening (entries ++ [.observer point.nextId interest code])
      nextId := point.nextId + 1 }
    refine ⟨.answer { w with points := w.points.set p joined } below
      (.registered (.ok ⟨some p, point.nextId⟩)), ⟨some p, point.nextId⟩, ?_, .inl ⟨rfl, rfl⟩⟩
    simp only [perform, hp, register, h, Phase.access, Phase.isEnded, Phase.join]
    rfl
  | dispatching => simp [h, Phase.isListening, Phase.isEnded] at hrests
  | ended farewell =>
    refine ⟨.acts w below p [point.report p .lateRegistration none, .present code .tombstone]
      (.registered (.ok .inert)), .inert, ?_, .inr rfl⟩
    simp only [perform, hp, register, h, Phase.access, Phase.isEnded, if_true]

end World

/-- Unless a sink breaks its pass, a point is open or has ended once no call serves it, whatever
panics there were; and a thread that has left its calls behind is not inside a pass. So the next push
opens a pass for all on the list or is reported as late, and the next observer is not refused. -/
theorem panics_leave_no_pass_open {host : H} {trail : List (Moment M E K H)}
    (run : Run client (.initial host) trail w) (hb : ∀ m ∈ trail, m.breaksPass p = false) :
    (∀ thread ∈ w.threads, .serving p ∉ thread.stack → (w.phase p).access thread.id ≠ .inside) ∧
    (¬w.IsServed p →
      ((w.phase p).isListening ∨ (w.phase p).isEnded) ∧
      ∀ point, w.points[p]? = some point → ∀ t below,
        (∀ event, ∃ m, w.perform client t below (.push p event) = some m ∧
          ((∃ entries, w.phase p = .listening entries ∧
              m.world.phase p = .dispatching t { event, waiting := entries } ∧
              m.stack = .serving p :: below) ∨
            (w.phase p).isEnded ∧ m.stack =
              .acts p [point.report p .lateEvent (some event.lateName)] .done :: below)) ∧
        ∀ interest code, ∃ m handle,
          w.perform client t below (.register p interest code) = some m ∧
          (m.control = .resume (.registered (.ok handle)) ∧ m.stack = below ∨
            m.stack = .acts p [point.report p .lateRegistration none, .present code .tombstone]
              (.registered (.ok handle)) :: below)) := by
  have hmanned := run.manned (World.initial_manned host p) hb
  constructor
  · intro thread hthread hnot hinside
    cases hphase : w.phase p with
    | dispatching owner pass =>
      rw [hphase] at hinside
      have howner : owner = thread.id := by
        by_contra hne
        simp [Phase.access, hne] at hinside
      obtain ⟨server, hserver, hid, hserving⟩ := hmanned.owned owner pass hphase
      rw [hmanned.orderly.eq_of_id_eq hserver hthread (hid.trans howner)] at hserving
      exact hnot hserving
    | _ => simp [hphase, Phase.access] at hinside
  · intro hserved
    have hrests : (w.phase p).isListening ∨ (w.phase p).isEnded := by
      cases hphase : w.phase p with
      | listening => exact .inl rfl
      | dispatching owner pass =>
        obtain ⟨server, hserver, -, hserving⟩ := hmanned.owned owner pass hphase
        exact absurd ⟨server, hserver, _, hserving, by simp [Frame.serves]⟩ hserved
      | ended => exact .inr rfl
    refine ⟨hrests, ?_⟩
    intro point hp t below
    exact ⟨World.push_at_rest hp hrests, World.register_at_rest hp hrests⟩

/-- A client of whose observers the doubtful ones panic, and all of whose sinks. -/
def anxiousClient : Client Unit Unit Bool Unit :=
  { plainClient with
    observer := fun steady _ => if steady then .ret true else .panic .other
    sink := fun _ _ => .panic .other }

/-- A set of sinks keeps the panics of its members to itself. -/
theorem panics_leave_no_pass_open_anxious :
    ((World.runCalls anxiousClient () [.create "request" (.set [.client "sink" true]),
      .register 0 .active true, .register 0 .active false,
      .push 0 (.ofResponse () false)] 80).2.phase 0).isListening ∨
    ((World.runCalls anxiousClient () [.create "request" (.set [.client "sink" true]),
      .register 0 .active true, .register 0 .active false,
      .push 0 (.ofResponse () false)] 80).2.phase 0).isEnded := by
  have run := World.run_runCalls anxiousClient () [.create "request" (.set [.client "sink" true]),
    .register 0 .active true, .register 0 .active false, .push 0 (.ofResponse () false)] 80
  obtain ⟨-, h⟩ := panics_leave_no_pass_open run (p := 0) (by decide)
  exact (h (by decide)).1

/-- A sink by itself breaks the pass in which it is told of a panic: all calls are over, and yet the
pass is open, the next push is put off for good, and the next observer is refused. -/
theorem sink_breaks_pass :
    let w := (World.runCalls anxiousClient () [.create "request" (.client "sink" true),
      .register 0 .active true, .register 0 .active false, .push 0 (.ofResponse () false)] 80).2
    w.IsQuiet ∧ ¬(w.phase 0).isListening ∧ ¬(w.phase 0).isEnded ∧ (w.phase 0).access 0 = .inside := by
  decide

end Exchange
