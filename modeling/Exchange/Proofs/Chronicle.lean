import Exchange.Proofs.Commit
import Exchange.Proofs.Serving

/-!
Every run takes every point along a course. No more than one thread has frames that serve the point,
and to that thread its pass belongs.
-/

namespace Exchange
set_option autoImplicit false

variable {M E K H : Type} {client : Client M E K H} {w w' : World M E K H} {t : Nat}
  {thread : Thread M E K H}
variable {p : Nat}

namespace World

/-- The call that serves the point, if any, is on the stack of one thread, to which the pass
belongs. -/
inductive Attended (w : World M E K H) (p : Nat) : Service → Prop
  | idle : (∀ thread ∈ w.threads, Clear p thread.stack) → Attended w p .idle
  | served {v : Service} (thread : Thread M E K H) : thread ∈ w.threads →
      Serves p (w.phase p) v thread.control thread.stack →
      (∀ owner pass, w.phase p = .dispatching owner pass → owner = thread.id) →
      (∀ other ∈ w.threads, other.id ≠ thread.id → Clear p other.stack) → Attended w p v

end World

theorem Thread.IsBare.clear (h : thread.IsBare) : Clear p thread.stack := h.stack_eq ▸ clear_nil

theorem Thread.Begins.clear (h : thread.Begins) : Clear p thread.stack := by
  cases h with
  | bare h => exact h.clear
  | turn => simp [Frame.attends]
  | closing => simp [Frame.attends]

theorem Phase.owner_of_advance {phase : Phase M E K} {stays : Bool} {owner : Nat}
    {pass : Pass M E K} (h : phase.advance stays = .dispatching owner pass) :
    ∃ pass, phase = .dispatching owner pass := by
  cases phase <;> cases h
  exact ⟨_, rfl⟩

theorem Change.owner {s s' : Standing M E K} {happenings : List (Happening M E K)}
    (h : Change s happenings s') (hs : s.service ≠ .idle) {owner : Nat} {pass : Pass M E K}
    (hp : s'.phase = .dispatching owner pass) : ∃ pass, s.phase = .dispatching owner pass := by
  cases h with
  | rests => exact ⟨pass, hp⟩
  | aside => exact ⟨pass, hp⟩
  | awaitsInside =>
    cases hp
    exact ⟨_, rfl⟩
  | unregistersInside =>
    cases hp
    exact ⟨_, rfl⟩
  | pushesInside =>
    cases hp
    exact ⟨_, rfl⟩
  | calls => exact ⟨pass, hp⟩
  | skips => exact Phase.owner_of_advance hp
  | gives => exact ⟨pass, hp⟩
  | leaves => exact Phase.owner_of_advance hp
  | goesOn _ hcommit =>
    cases hp
    obtain ⟨-, -, rfl, -⟩ := Pass.commit_dispatching hcommit
    exact ⟨_, rfl⟩
  | pushes => exact absurd rfl hs
  | _ => cases hp

/-! ## Every run is a course -/

/-- Where a point stands in an exchange. -/
structure World.Stands (w : World M E K H) (p : Nat) (s : Standing M E K) : Prop where
  eq : s = w.standing p s.service
  attended : w.Attended p s.service

namespace World
variable {s : Standing M E K}

theorem initial_stands (host : H) : (initial host : World M E K H).Stands p .initial := by
  constructor
  · simp [Standing.initial, standing, phase, nextId, nextTicket, initial]
  · apply Attended.idle
    intro thread h
    rw [List.mem_singleton.mp h]
    exact clear_nil

theorem Stands.of_between (h : w.Stands p s) (ho : w.Orderly) (hb : Between client w w') :
    w'.Stands p s := by
  obtain ⟨⟨hpoints, come, gone, kept, hbefore, hafter, hgone, hcome⟩, -⟩ := between_interlude ho hb
  have hphase : w'.phase p = w.phase p := by simp only [phase, hpoints]
  refine ⟨h.eq.trans (standing_congr hpoints).symm, ?_⟩
  have clear {other : Thread M E K H} (hother : other ∈ w'.threads)
      (hkept : other ∈ w.threads → Clear p other.stack) : Clear p other.stack := by
    rcases List.mem_append.mp (hafter.mem_iff.mp hother) with hother | hother
    · exact (hcome other hother).clear
    · exact hkept (hbefore.mem_iff.mpr (List.mem_append_right _ hother))
  have hattended := h.attended
  generalize s.service = v at hattended ⊢
  cases hattended with
  | idle hall =>
    apply Attended.idle
    intro other hother
    exact clear hother (hall other)
  | served thread hmem hs howner hothers =>
    refine .served thread ?_ (hphase ▸ hs) (hphase ▸ howner) ?_
    · rcases List.mem_append.mp (hbefore.mem_iff.mp hmem) with hmem | hmem
      · exact absurd (hgone thread hmem).stack_eq hs.ne_nil
      · exact hafter.mem_iff.mpr (List.mem_append_right _ hmem)
    · intro other hother hne
      apply clear hother
      intro hmem
      exact hothers other hmem hne

theorem Stands.of_step (h : w.Stands p s) (hw : w.Sound) (hs : s.Coherent)
    (ht : w.thread? t = some thread) (hstep : w.step client t = some w') :
    ∃ s', Change s (Moment.happenings p ⟨w, thread⟩) s' ∧ w'.Stands p s' := by
  obtain ⟨⟨m, hm, stepped⟩, ho⟩ := step_stepped hw.orderly ht hstep
  obtain ⟨phase, v, i, n⟩ := s
  obtain ⟨heq, hattended⟩ := h
  dsimp only at heq hattended
  rw [heq] at hs ⊢
  have hid := stepped.id
  have hd := hw.disciplined thread (mem_of_thread? ht)
  have hphase : w'.phase p = m.world.phase p := by simp only [World.phase, stepped.points]
  have stands (v : Service) : w'.standing p v = m.world.standing p v :=
    standing_congr stepped.points
  -- of the other threads those that are new are in the middle of nothing
  have others {other : Thread M E K H} (hother : other ∈ w'.threads) (hne : other.id ≠ thread.id)
      (hkept : other ∈ w.threads → Clear p other.stack) : Clear p other.stack := by
    rcases stepped.succession.others_after hother with rfl | hbefore | hbare
    · exact absurd rfl hne
    · exact hkept hbefore
    · exact hbare.clear
  have self := stepped.succession.mem_after
  have hmem := mem_of_thread? ht
  cases hattended with
  | idle hall =>
    rcases clear_step hm hd hs (fun h => absurd rfl h) (hall thread hmem) with
      ⟨hchange, hclear, -⟩ | ⟨-, hchange, hserves, howner⟩
    · refine ⟨w'.standing p .idle, stands _ ▸ hchange, rfl, ?_⟩
      apply Attended.idle
      intro other hother
      by_cases hother' : other.id = thread.id
      · rw [ho.eq_of_id_eq hother self hother']
        exact hclear
      · exact others hother hother' (hall other)
    · refine ⟨w'.standing p .between, stands _ ▸ hchange, rfl, ?_⟩
      refine .served _ self (hphase ▸ hserves) ?_ ?_
      · exact hid ▸ hphase ▸ howner
      · intro other hother hne
        exact others hother hne (hall other)
  | served server hserver hserves howner hothers =>
    by_cases hsame : server.id = thread.id
    · -- the thread that serves the point takes the step
      obtain rfl := hw.orderly.eq_of_id_eq hserver hmem hsame
      have hclears {other : Thread M E K H} (hother : other ∈ w'.threads)
          (hne : other.id ≠ server.id) : Clear p other.stack := by
        apply others hother hne
        intro hold
        exact hothers other hold hne
      obtain ⟨v', hchange, hgoes⟩ := serving_step hm hd hs (hid ▸ howner) hserves
      refine ⟨w'.standing p v', stands _ ▸ hchange, rfl, ?_⟩
      rcases hgoes with ⟨rfl, hclear⟩ | hserves'
      · apply Attended.idle
        intro other hother
        by_cases hother' : other.id = server.id
        · rw [ho.eq_of_id_eq hother self hother']
          exact hclear
        · exact hclears hother hother'
      · refine .served _ self (hphase ▸ hserves') ?_ ?_
        · intro owner pass hpass
          obtain ⟨pass', hpass'⟩ := hchange.owner hserves.ne_idle (hphase ▸ hpass)
          exact howner owner pass' hpass'
        · intro other hother hne
          exact hclears hother hne
    · -- another thread does, which finds the point in use
      have hnot : ∀ pass, w.phase p ≠ .dispatching t pass := by
        intro pass h
        exact hsame (hid ▸ (howner t pass h).symm)
      have hfree : Clear p thread.stack := hothers thread hmem (Ne.symm hsame)
      rcases clear_step hm hd hs (fun _ => hnot) hfree with
        ⟨hchange, hclear, hsteady⟩ | ⟨hidle, -⟩
      · have hsteady := hphase.trans (hsteady hserves.ne_idle)
        refine ⟨w'.standing p v, stands _ ▸ hchange, rfl, ?_⟩
        refine .served server ?_ (hsteady ▸ hserves) (hsteady ▸ howner) ?_
        · rcases stepped.succession.others_before hserver with rfl | hafter | hbare
          · exact absurd rfl hsame
          · exact hafter
          · exact absurd hbare.stack_eq hserves.ne_nil
        · intro other hother hne
          by_cases hother' : other.id = thread.id
          · rw [ho.eq_of_id_eq hother self hother']
            exact hclear
          · apply others hother hother'
            intro hold
            exact hothers other hold hne
      · exact absurd hidle hserves.ne_idle

theorem Stands.phase_eq (h : w.Stands p s) : s.phase = w.phase p := congrArg Standing.phase h.eq

/-- A call that serves the point is under way: the one that opened its pass, or ended it, has not
returned. -/
def IsServed (w : World M E K H) (p : Nat) : Prop :=
  ∃ thread ∈ w.threads, ∃ frame ∈ thread.stack, frame.serves p

instance (w : World M E K H) (p : Nat) : Decidable (w.IsServed p) :=
  inferInstanceAs (Decidable (∃ thread ∈ w.threads, ∃ frame ∈ thread.stack, frame.serves p = true))

theorem Stands.idle (h : w.Stands p s) (hw : ¬w.IsServed p) : s.service = .idle := by
  have hattended := h.attended
  generalize s.service = v at hattended ⊢
  cases hattended with
  | idle => rfl
  | served thread hmem hs =>
    refine absurd ⟨thread, hmem, ?_⟩ hw
    generalize thread.control = control, thread.stack = stack at hs
    induction hs with
    | between => exact ⟨_, List.mem_cons_self, by simp [Frame.serves]⟩
    | calling => exact ⟨_, List.mem_cons_of_mem _ List.mem_cons_self, by simp [Frame.serves]⟩
    | engaged => exact ⟨_, List.mem_cons_of_mem _ List.mem_cons_self, by simp [Frame.serves]⟩
    | above _ _ _ ih =>
      obtain ⟨frame, hframe, hserves⟩ := ih
      exact ⟨frame, List.mem_cons_of_mem _ hframe, hserves⟩

theorem Stands.ne_idle (h : w.Stands p s) (hw : w.IsServed p) : s.service ≠ .idle := by
  obtain ⟨thread, hmem, frame, hframe, hserves⟩ := hw
  have hattended := h.attended
  generalize s.service = v at hattended ⊢
  cases hattended with
  | idle hall =>
    have hattends := hall thread hmem frame hframe
    cases frame <;> simp_all [Frame.serves, Frame.attends]
  | served _ _ hs => exact hs.ne_idle

/-- Who delivers something to a point is the one whose call serves it, and before it is engaged it is about to
give the entry that is due its event. -/
theorem Stands.delivers (h : w.Stands p s) (ho : w.Orderly) {stack : List (Frame M E K H)}
    (ht : thread ∈ w.threads) (htop : thread.stack = .delivering p :: stack) :
    stack.head? = some (.serving p) ∧
      (s.service = .calling ∧ (∃ entry event, (w.phase p).due = some (entry, event) ∧
          thread.control = .act (entry.act event)) ∨
        s.service = .engaged ∧ ∀ due, thread.control ≠ .act due) := by
  have hclear : ¬Clear p thread.stack := by simp [htop, Frame.attends]
  have hattended := h.attended
  generalize s.service = v at hattended ⊢
  cases hattended with
  | idle hall => exact absurd (hall thread ht) hclear
  | served server hserver hserves howner hothers =>
    obtain rfl : thread = server := by
      apply ho.eq_of_id_eq ht hserver
      by_contra hne
      exact hclear (hothers thread ht hne)
    rw [htop] at hserves
    obtain ⟨below, rfl, -, hserves⟩ := hserves.of_delivering
    exact ⟨rfl, hserves⟩

theorem Stands.engaged (h : w.Stands p s) (ho : w.Orderly) {stack : List (Frame M E K H)}
    (ht : thread ∈ w.threads) (htop : thread.stack = .delivering p :: stack)
    (hact : ∀ due, thread.control ≠ .act due) : s.service = .engaged := by
  obtain ⟨-, ⟨-, entry, event, -, hcontrol⟩ | ⟨hengaged, -⟩⟩ := h.delivers ho ht htop
  · exact absurd hcontrol (hact _)
  · exact hengaged

theorem not_isServed_of_isQuiet (h : w.IsQuiet) : ¬w.IsServed p := by
  rintro ⟨thread, hmem, frame, hframe, -⟩
  rw [(h thread hmem).stack_eq] at hframe
  exact List.not_mem_nil hframe

end World

@[simp] theorem history_append (p : Nat) (first second : List (Moment M E K H)) :
    history p (first ++ second) = history p first ++ history p second := List.flatMap_append

/-- Along every run whose sinks return normally every point takes a course. -/
theorem Run.course {u : World M E K H} {trail : List (Moment M E K H)} {s : Standing M E K}
    (run : Run client u trail w) (hr : SinksReturn trail) (hu : u.Sound) (hs : u.Stands p s)
    (hc : s.Coherent) :
    ∃ s', Course s (history p trail) s' ∧ w.Stands p s' := by
  induction run with
  | refl => exact ⟨s, .refl, hs⟩
  | step run ht hstep ih =>
    obtain ⟨hr, -⟩ := sinksReturn_append.mp hr
    obtain ⟨s', course, hs'⟩ := ih hr
    obtain ⟨s'', hchange, hs''⟩ := hs'.of_step (run.sound hu hr) (course.coherent hc) ht hstep
    refine ⟨s'', ?_, hs''⟩
    rw [history_append]
    simpa [history] using course.step hchange
  | between run hb ih =>
    obtain ⟨s', course, hs'⟩ := ih hr
    exact ⟨s', course, hs'.of_between (run.sound hu hr).orderly hb⟩

theorem Run.course_of_initial {host : H} {trail : List (Moment M E K H)}
    (run : Run client (.initial host) trail w) (hr : SinksReturn trail) (p : Nat) :
    ∃ s, Course .initial (history p trail) s ∧ w.Stands p s :=
  run.course hr (World.initial_sound host) (World.initial_stands host) Standing.initial_coherent

/-- What has happened on a point up to a moment of a run, at that moment, and since. -/
theorem Run.course_through {host : H} {trail before after : List (Moment M E K H)}
    {m : Moment M E K H} (run : Run client (.initial host) trail w) (hr : SinksReturn trail)
    (htrail : trail = before ++ m :: after) (p : Nat) :
    ∃ s s' s'', Course .initial (history p before) s ∧ m.world.Stands p s ∧
      Change s (m.happenings p) s' ∧ Course s' (history p after) s'' ∧ w.Stands p s'' := by
  obtain ⟨run, n, v, ht, hstep, hafter⟩ := run.split htrail
  obtain ⟨hr, hr'⟩ := sinksReturn_append.mp (htrail ▸ hr)
  rw [← List.singleton_append, sinksReturn_append] at hr'
  obtain ⟨s, course, stands⟩ := run.course_of_initial hr p
  have hsound := run.sound (World.initial_sound host) hr
  obtain ⟨s', hchange, stands'⟩ :=
    stands.of_step hsound (course.coherent Standing.initial_coherent) ht hstep
  have hsound' := (run.step ht hstep).sound (World.initial_sound host)
    (sinksReturn_append.mpr ⟨hr, hr'.1⟩)
  obtain ⟨s'', hlater, stands''⟩ := hafter.course hr'.2 hsound' stands'
    ((course.step hchange).coherent Standing.initial_coherent)
  exact ⟨s, s', s'', course, stands, hchange, hlater, stands''⟩

end Exchange
