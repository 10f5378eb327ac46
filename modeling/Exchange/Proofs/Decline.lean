import Exchange.Proofs.Beside

/-!
A panic inside a delivery is the same as declining, and one report. A run in which some callbacks panic
when they have their turns is kept company by one in which they decline: step by step the one exchange is
the other, quieted. The two differ in the reports of these panics and in nothing else.
-/

namespace Exchange
set_option autoImplicit false

variable {M E K H V : Type} {client : Client M E K H} {start w w' : World M E K H} {t n p : Nat}
  {thread : Thread M E K H}
variable {control : Control M E K H} {stack : List (Frame M E K H)} {m : Move M E K H}
variable {trail first second : List (Moment M E K H)}
variable {view : H → V} {spared : Nat → Nat → Bool} {due due' : List Nat} {host : H} {seq : Nat}

/-! ## Moments -/

theorem Entry.stays_of_declines : Entry.stays (.keep false : Reply M K) = fun _ => false := by
  funext entry
  cases entry <;> rfl

/-- For the point, who panics leaves as one who declines. -/
theorem Alike.declines {payload : Payload} {v : World M E K H} (hp : v.points = w.points) :
    Alike [⟨v, ⟨n, .resume (.keep false), .delivering p :: stack⟩⟩]
      [⟨w, ⟨n, .unwind payload, .delivering p :: stack⟩⟩] := by
  constructor
  · intro q
    simp only [Exchange.history, List.flatMap_singleton, Moment.happenings, World.returns, World.phase,
      hp, Entry.stays_of_declines]
  · rfl
  · rfl
  · simp only [outermostReturns, List.filter_singleton, Moment.isOutermost]
    cases List.all _ _ <;> rfl
  · rfl

/-- A point is there to which something is being delivered. -/
theorem Run.delivery {host : H} (run : Run client (.initial host) trail w) (hs : SinksReturn trail)
    (ht : thread ∈ w.threads) (htop : thread.stack = .delivering p :: stack) :
    stack.head? = some (.serving p) ∧ ∃ point, w.points[p]? = some point := by
  obtain ⟨s, course, stands⟩ := run.course_of_initial hs p
  have ho := (run.sound (World.initial_sound host) hs).orderly
  obtain ⟨hserving, hservice⟩ := stands.delivers ho ht htop
  obtain ⟨entry, event, hdue, -⟩ :=
    (course.coherent Standing.initial_coherent).turn (hservice.imp (·.1) (·.1))
  refine ⟨hserving, ?_⟩
  rw [stands.phase_eq] at hdue
  cases hp : w.points[p]? with
  | some point => exact ⟨point, rfl⟩
  | none =>
    rw [World.phase, hp] at hdue
    cases hdue

/-- The step that follows a panic in a delivery. -/
theorem World.unwind_delivering {point : Point M E K} {payload : Payload}
    (hp : w.points[p]? = some point) :
    w.unwind client stack payload (.delivering p) =
      ⟨w.setPhase p (point.phase.advance false),
        .act (point.report p .observerPanicked (some payload.info)), stack⟩ := by
  simp only [unwind, hp]

theorem World.resume_declines {point : Point M E K} (hp : w.points[p]? = some point) :
    w.resume client t stack (.keep false) (.delivering p) =
      .answer (w.setPhase p (point.phase.advance false)) stack .done := by
  simp only [resume, hp, Entry.stays_of_declines, Option.any_false]

/-! ## A run that keeps company -/

/-- The sparing run that keeps company with a run that has come so far. -/
structure Company (client : Client M E K H) (view : H → V) (spared : Nat → Nat → Bool)
    (start : World M E K H) (due : List Nat) (first : List (Moment M E K H)) (w : World M E K H)
    (second : List (Moment M E K H)) (host : H) (seq : Nat) : Prop where
  run : Sparing client spared start second (w.quieted due (fun _ => host) fun _ => seq)
  view : view host = view w.host
  alike : Alike second first
  numbers : (diagnoses second).map (·.2.seq) = List.range seq

theorem Recast.Shows.quieting (hd : due.contains t = false) :
    (Recast.quieting due id id : Recast M E K H).Shows view t :=
  ⟨fun _ _ ha => ha.quieted fun _ => hd, fun _ _ hr => hr.quieted⟩

theorem Company.iff_beside : Company client view spared start due first w second host seq ↔
    Beside (Sparing client spared start) (.quieting due id id) view first w second host seq := by
  have hworld : w.quieted due (fun _ => host) (fun _ => seq) =
      w.recast ((Recast.quieting due id id).hosting host seq) := World.quieted_eq
  constructor
  · rintro ⟨hrun, hview, halike, hnumbers⟩
    exact ⟨hworld ▸ hrun, hview, halike, hnumbers⟩
  · rintro ⟨hrun, hview, halike, hnumbers⟩
    exact ⟨hworld ▸ hrun, hview, halike, hnumbers⟩

namespace Company
variable {moment : Moment M E K H}

theorem initial (host : H) : Company client view spared (.initial host) [] [] (.initial host) [] host 0 :=
  ⟨.refl, rfl, .refl, rfl⟩

/-- The report of a panic that is spared. -/
theorem omits (h : Company client view spared start due first w second host seq) (ho : w.Orderly)
    (ht : w.thread? t = some thread) (ha : thread.Apart) (hr : thread.control.isReport)
    (hdue : due.contains t) (hs : w.step client t = some w') :
    Company client view spared start (due.filter (· ≠ t)) first w' second host seq ∧
      w'.nextSeq = w.nextSeq + 1 := by
  obtain ⟨n, control, stack⟩ := thread
  obtain rfl : n = t := World.id_of_thread? ht
  obtain ⟨m, hm, -⟩ := World.thread?_of_step ho ht hs
  obtain ⟨hbeneath, hbears, sink, kind, label, reason, -, rfl⟩ := ha.reports hr hm
  rw [World.step_of_move ht hm, Option.some_inj] at hs
  subst hs
  have hreporting : Reporting view
      (.deliver sink ⟨kind, label, reason, w.nextSeq⟩ : Control M E K H) stack := .delivers _ _ hbears
  refine ⟨iff_beside.mpr ((iff_beside.mp h).rests w.host (w.nextSeq + 1) ho ht ?_ ?_ rfl rfl), rfl⟩
  · have hover : Thread.quieted due ⟨n, control, stack⟩ = ⟨n, .resume .done, stack⟩ :=
      Thread.quieted_due hr hdue hbeneath
    have hreported : Thread.quieted (due.filter (· ≠ n))
        ⟨n, .deliver sink ⟨kind, label, reason, w.nextSeq⟩, stack⟩ = _ := hreporting.quieted
    rw [hbeneath] at hreported
    exact hreported.trans hover.symm
  · intro other hne
    exact Thread.quieted_congr (by simp [hne])

/-- A panic that is spared: the sparing run declines. -/
theorem declines {payload : Payload} {point : Point M E K} {rest : List (Frame M E K H)}
    (h : Company client view spared start due first w second host seq)
    (ht : w.thread? t = some ⟨t, .unwind payload, .delivering p :: rest⟩)
    (ha : Thread.Apart (⟨t, .unwind payload, .delivering p :: rest⟩ : Thread M E K H))
    (hp : w.points[p]? = some point) (hspared : spared p (turnCount p first))
    (hdue : due.contains t = false) (hs : w.step client t = some w') :
    (∃ second, Company client view spared start (t :: due)
      (first ++ [⟨w, ⟨t, .unwind payload, .delivering p :: rest⟩⟩]) w' second host seq) ∧
      w'.nextSeq = w.nextSeq ∧ w'.thread? t =
        some ⟨t, .act (point.report p .observerPanicked (some payload.info)), rest⟩ := by
  have hm : w.move client t (.delivering p :: rest) (.unwind payload) = some
      ⟨w.setPhase p (point.phase.advance false),
        .act (point.report p .observerPanicked (some payload.info)), rest⟩ :=
    congrArg some (World.unwind_delivering hp)
  rw [World.step_of_move ht hm, Option.some_inj] at hs
  subst hs
  let v := w.recast ((Recast.quieting due id id).hosting host seq)
  have hv : v.thread? t = some ⟨t, .unwind payload, .delivering p :: rest⟩ := by
    rw [World.recast_thread?, ht]
    exact congrArg some (ha.quieted fun _ => hdue)
  have hspares : spares spared second (⟨t, .unwind payload, .delivering p :: rest⟩ : Thread M E K H) :=
    h.alike.spares.trans hspared
  let u := v.put t (.resume (.keep false)) (.delivering p :: rest)
  have hu : u.thread? t = some ⟨t, .resume (.keep false), .delivering p :: rest⟩ :=
    World.thread?_put (Option.isSome_of_eq_some hv)
  have hmove : u.move client t (.delivering p :: rest) (.resume (.keep false)) = some
      (.answer (u.setPhase p (point.phase.advance false)) rest .done) :=
    congrArg some (World.resume_declines hp)
  have hrun := ((iff_beside.mp h).run.declines hv hspares).step hu rfl (World.step_of_move hu hmove)
  have hput : (u.setPhase p (point.phase.advance false)).put t (.resume .done) rest =
      (v.setPhase p (point.phase.advance false)).put t (.resume .done) rest :=
    World.put_put (w := v.setPhase p (point.phase.advance false))
  have hbeneath : beneath rest = rest :=
    beneath_eq fun frame hf => ha.stack frame (List.mem_cons_of_mem _ hf)
  refine ⟨⟨second ++ [⟨u, ⟨t, .resume (.keep false), .delivering p :: rest⟩⟩],
    iff_beside.mpr ⟨?_, h.view, ?_, ?_⟩⟩, rfl, ?_⟩
  · have hlooks : (Recast.quieting (t :: due) id id).thread
        ⟨t, .act (point.report p .observerPanicked (some payload.info)), rest⟩ = ⟨t, .resume .done, rest⟩ :=
      Thread.quieted_due rfl (by simp) hbeneath
    rw [World.put_recast (r := .quieting due id id) hlooks
      (fun other hne => Thread.quieted_congr (by simp [hne])) rfl]
    exact hput ▸ hrun
  · exact h.alike.append (Alike.declines rfl)
  · exact numbers_snoc _ h.numbers
  · exact World.thread?_put (w := w.setPhase p (point.phase.advance false))
      (Option.isSome_of_eq_some ht)

/-- A step of a thread that is not about to make a report which is left out. -/
theorem goes (h : Company client view spared start due first w second host seq) (hw : w.Recorded view)
    (hc : client.Records view) (hb : Moment.Blind client view ⟨w, thread⟩)
    (hdelivery : ∀ p rest, thread.stack = .delivering p :: rest → ∃ point, w.points[p]? = some point)
    (ht : w.thread? t = some thread) (hdue : due.contains t = false) (hs : w.step client t = some w') :
    (∃ second host seq, Company client view spared start
      (if spares spared first thread then t :: due else due) (first ++ [⟨w, thread⟩]) w'
      second host seq) ∧
      w'.nextSeq = w.nextSeq + (if thread.control.isReport then 1 else 0) ∧
      (spares spared first thread →
        ∃ thread', w'.thread? t = some thread' ∧ thread'.control.isReport) := by
  have hheard := hw.heard thread (World.mem_of_thread? ht)
  cases hspares : spares spared first thread with
  | true =>
    obtain ⟨n, control, stack⟩ := thread
    obtain rfl : n = t := World.id_of_thread? ht
    unfold spares at hspares
    split at hspares
    · rename_i payload p rest hcontrol hstack
      obtain rfl : control = .unwind payload := hcontrol
      obtain rfl : stack = .delivering p :: rest := hstack
      obtain ⟨point, hp⟩ := hdelivery p rest rfl
      have ha : Thread.Apart ⟨n, .unwind payload, .delivering p :: rest⟩ := by
        rcases hheard with ha | hr
        · exact ha
        · cases hr
      obtain ⟨⟨second, hcompany⟩, hseq, hthread⟩ := h.declines ht ha hp hspares hdue hs
      exact ⟨⟨second, host, seq, hcompany⟩, hseq, fun _ => ⟨_, hthread, rfl⟩⟩
    · cases hspares
  | false =>
    rw [if_neg Bool.false_ne_true]
    obtain ⟨⟨second, host, seq, hnext⟩, hseq⟩ := (iff_beside.mp h).follows hw hc hb (.quieting hw.heard)
      (fun _ => rfl) (.quieting hdue) .sparing ht
      (fun _ _ _ hv hrun hstep => hrun.step hv (h.alike.spares.trans hspares) hstep) (fun _ => rfl) hs
    exact ⟨⟨second, host, seq, iff_beside.mpr hnext⟩, hseq, nofun⟩

end Company

/-! ## Runs -/

/-- A run, what it tells, and a run that keeps company with it. -/
structure Paired (client : Client M E K H) (view : H → V) (spared : Nat → Nat → Bool)
    (start : World M E K H) (trail : List (Moment M E K H)) (w : World M E K H) : Prop where
  due : ∀ t, (omission spared trail).due.contains t →
    ∃ thread, w.thread? t = some thread ∧ thread.control.isReport
  invocations : ∀ p, invocations p (unreported spared trail) = invocations p trail
  returns : returns (unreported spared trail) = returns trail
  numbers : (diagnoses trail).map (·.2.seq) = List.range w.nextSeq
  company : ∃ second host seq, Company client view spared start (omission spared trail).due
    (unreported spared trail) w second host seq

namespace Paired

theorem initial (host : H) : Paired client view spared (.initial host) [] (.initial host) :=
  ⟨by simp [omission], fun _ => rfl, rfl, rfl, [], host, 0, .initial host⟩

/-- Who is about to report something else goes on being so. -/
theorem others (h : Paired client view spared start trail w) (hw : w.Recorded view)
    (ht : w.thread? t = some thread) (hs : w.step client t = some w') (hne : n ≠ t)
    (hn : (omission spared trail).due.contains n) :
    ∃ other, w'.thread? n = some other ∧ other.control.isReport := by
  obtain ⟨other, hother, hreport⟩ := h.due n hn
  obtain ⟨⟨m, -, stepped⟩, ho⟩ := World.step_stepped hw.orderly ht hs
  have hstack := (hw.heard other (World.mem_of_thread? hother)).ne_nil_of_report hreport
  exact ⟨other, stepped.keeps ho hother hne hstack, hreport⟩

/-- The report of a panic that is spared is left out. -/
theorem omits (h : Paired client view spared start trail w) (hw : w.Recorded view)
    (ht : w.thread? t = some thread) (hdue : (omission spared trail).due.contains t)
    (hs : w.step client t = some w') : Paired client view spared start (trail ++ [⟨w, thread⟩]) w' := by
  obtain rfl := World.id_of_thread? ht
  obtain ⟨second, host, seq, hcompany⟩ := h.company
  obtain ⟨thread', ht', hr⟩ := h.due _ hdue
  cases ht.symm.trans ht'
  have homission := omission_of_due ⟨w, thread⟩ hdue
  obtain ⟨hcompany', hseq⟩ := hcompany.omits hw.orderly ht
    ((hw.heard thread (World.mem_of_thread? ht)).apart_of_report hr) hr hdue hs
  refine ⟨?_, ?_, ?_, ?_, second, host, seq, ?_⟩
  · intro n hn
    rw [homission] at hn
    obtain ⟨hn, hne⟩ : (omission spared trail).due.contains n ∧ n ≠ thread.id := by simpa using hn
    exact h.others hw ht hs hne hn
  · intro p
    rw [unreported, homission, invocations_append, invocations_of_report hr, List.append_nil]
    exact h.invocations p
  · rw [unreported, homission, returns_append, returns_of_report hr, List.append_nil]
    exact h.returns
  · have hnumbers := numbers_snoc ⟨w, thread⟩ h.numbers
    rwa [hr, if_pos rfl, ← hseq] at hnumbers
  · rw [unreported, homission]
    exact hcompany'

theorem goes (h : Paired client view spared start trail w) (hw : w.Recorded view)
    (hc : client.Records view) (hb : Moment.Blind client view ⟨w, thread⟩)
    (hdelivery : ∀ p rest, thread.stack = .delivering p :: rest → ∃ point, w.points[p]? = some point)
    (ht : w.thread? t = some thread) (hdue : (omission spared trail).due.contains t = false)
    (hs : w.step client t = some w') : Paired client view spared start (trail ++ [⟨w, thread⟩]) w' := by
  obtain rfl := World.id_of_thread? ht
  obtain ⟨second, host, seq, hcompany⟩ := h.company
  have homission := omission_of_not_due ⟨w, thread⟩ hdue
  obtain ⟨hcompany', hseq, hreports⟩ := hcompany.goes hw hc hb hdelivery ht hdue hs
  refine ⟨?_, ?_, ?_, ?_, ?_⟩
  · intro n hn
    rw [homission] at hn
    by_cases hne : n = thread.id
    · subst hne
      apply hreports
      by_contra hnot
      rw [if_neg hnot, hdue] at hn
      cases hn
    · apply h.others hw ht hs hne
      dsimp only at hn
      split at hn
      · simpa [hne] using hn
      · exact hn
  · intro p
    rw [unreported, homission, invocations_append, invocations_append, h.invocations]
  · rw [unreported, homission, returns_append, returns_append, h.returns]
  · rw [hseq]
    exact numbers_snoc ⟨w, thread⟩ h.numbers
  · rw [unreported, homission]
    exact hcompany'

theorem of_step (h : Paired client view spared start trail w) (hw : w.Recorded view)
    (hc : client.Records view) (hb : Moment.Blind client view ⟨w, thread⟩)
    (hdelivery : ∀ p rest, thread.stack = .delivering p :: rest → ∃ point, w.points[p]? = some point)
    (ht : w.thread? t = some thread) (hs : w.step client t = some w') :
    Paired client view spared start (trail ++ [⟨w, thread⟩]) w' := by
  cases hdue : (omission spared trail).due.contains t with
  | true => exact h.omits hw ht hdue hs
  | false => exact h.goes hw hc hb hdelivery ht hdue hs

theorem of_between (h : Paired client view spared start trail w) (hw : w.Recorded view)
    (hb : Between client w w') : Paired client view spared start trail w' := by
  obtain ⟨second, host, seq, hcompany⟩ := h.company
  obtain ⟨hseq, host', hnext⟩ := (Company.iff_beside.mp hcompany).between (.quieting hw.heard)
    (fun _ _ hrun hbetween => hrun.between hbetween) hb
  refine ⟨?_, h.invocations, h.returns, hseq ▸ h.numbers, second, host', seq, Company.iff_beside.mpr hnext⟩
  intro n hn
  obtain ⟨other, hother, hreport⟩ := h.due n hn
  obtain ⟨hinterlude, ho⟩ := World.between_interlude hw.orderly hb
  have hne := (hw.heard other (World.mem_of_thread? hother)).ne_nil_of_report hreport
  exact ⟨other, World.keeps_of_interlude hinterlude ho hother hne, hreport⟩

end Paired

theorem Run.paired {host : H} (run : Run client (.initial host) trail w) (hc : client.Records view)
    (hb : ∀ m ∈ trail, m.Blind client view) (spared : Nat → Nat → Bool) :
    Paired client view spared (.initial host) trail w := by
  induction run with
  | refl => exact .initial host
  | step before ht hs ih =>
    obtain ⟨hw, hreturn⟩ := before.recorded hc (World.initial_recorded host)
    refine (ih fun m hm => hb m (List.mem_append_left _ hm)).of_step hw hc
      (hb _ (List.mem_append_right _ List.mem_cons_self)) ?_ ht hs
    intro p rest hstack
    exact (before.delivery hreturn (World.mem_of_thread? ht) hstack).2
  | between before hbetween ih =>
    exact (ih hb).of_between (before.recorded hc (World.initial_recorded host)).1 hbetween

/-- The next moment of a thread that is in the middle of something finds it as it was left. -/
theorem Run.next_moment (run : Run client start trail w) (ho : start.Orderly)
    (ht : start.thread? n = some thread) (hstack : thread.stack ≠ []) : w.Orderly ∧
      (w.thread? n = some thread ∧ trail.find? (·.thread.id = n) = none ∨
        ∃ next, trail.find? (·.thread.id = n) = some next ∧ next.thread = thread) := by
  induction run with
  | refl => exact ⟨ho, .inl ⟨ht, rfl⟩⟩
  | @step trail w w' n' other before hother hs ih =>
    obtain ⟨how, hnext⟩ := ih
    obtain ⟨⟨m, -, stepped⟩, ho'⟩ := World.step_stepped how hother hs
    refine ⟨ho', ?_⟩
    rw [List.find?_append]
    rcases hnext with ⟨hwaits, hnone⟩ | ⟨next, hfind, hnext⟩
    · rw [hnone, Option.none_or]
      by_cases hne : n = n'
      · subst hne
        cases hother.symm.trans hwaits
        exact .inr ⟨⟨w, thread⟩, by simp [World.id_of_thread? hother], rfl⟩
      · refine .inl ⟨stepped.keeps ho' hwaits hne hstack, ?_⟩
        simp [World.id_of_thread? hother, Ne.symm hne]
    · exact .inr ⟨next, by rw [hfind, Option.some_or], hnext⟩
  | between before hb ih =>
    obtain ⟨how, hnext⟩ := ih
    obtain ⟨hinterlude, ho'⟩ := World.between_interlude how hb
    refine ⟨ho', hnext.imp ?_ id⟩
    rintro ⟨hwaits, hnone⟩
    exact ⟨World.keeps_of_interlude hinterlude ho' hwaits hstack, hnone⟩

/-- A panic in a delivery is followed by its report, made by the call that serves the point. -/
theorem Run.panic_is_reported {host : H} {payload : Payload} {before after : List (Moment M E K H)}
    {moment : Moment M E K H} (run : Run client (.initial host) trail w) (hs : SinksReturn trail)
    (heq : trail = before ++ moment :: after) (hcontrol : moment.thread.control = .unwind payload)
    (htop : moment.thread.stack = .delivering p :: stack) :
    stack.head? = some (.serving p) ∧ ∃ point, moment.world.points[p]? = some point ∧
      ∀ next, after.find? (·.thread.id = moment.thread.id) = some next → next.thread =
        ⟨moment.thread.id, .act (point.report p .observerPanicked (some payload.info)), stack⟩ := by
  obtain ⟨hbefore, t, v, ht, hstep, hafter⟩ := run.split heq
  subst heq
  obtain ⟨hs, -⟩ := sinksReturn_append.mp hs
  have hid := World.id_of_thread? ht
  have ho := (hbefore.sound (World.initial_sound host) hs).orderly
  obtain ⟨hserving, point, hp⟩ := hbefore.delivery hs (World.mem_of_thread? ht) htop
  refine ⟨hserving, point, hp, ?_⟩
  obtain ⟨m, hm, hv⟩ := World.thread?_of_step ho ht hstep
  rw [hcontrol, htop] at hm
  obtain rfl := Option.some.inj ((congrArg some (World.unwind_delivering hp)).symm.trans hm)
  intro next hnext
  obtain ⟨-, ho'⟩ := World.step_stepped ho ht hstep
  have hstack : stack ≠ [] := by
    rintro rfl
    cases hserving
  rcases (hafter.next_moment ho' hv hstack).2 with ⟨-, hnone⟩ | ⟨other, hfind, hthread⟩
  · rw [hid, hnone] at hnext
    cases hnext
  · rw [hid, hfind] at hnext
    cases hnext
    rw [hid]
    exact hthread

/-! ## Turns and their numbers -/

/-- Who leaves was in the middle of its turn, and the turn is over. -/
theorem Change.of_left {s s' : Standing M E K} {entry : Entry K} {stays : Bool}
    (h : Change s [.left entry stays] s') : ∃ phase i n event, s = ⟨phase, .engaged, i, n⟩ ∧
      phase.due = some (entry, event) ∧ s' = ⟨phase.advance stays, .between, i, n⟩ := by
  generalize hone : [Happening.left entry stays] = happenings at h
  cases h with
  | leaves _ hdue =>
    cases hone
    exact ⟨_, _, _, _, rfl, hdue, rfl⟩
  | aside haside =>
    cases hone
    exact haside.elim
  | @gives _ _ _ given => cases given <;> cases hone
  | _ => cases hone

/-- Before somebody is engaged there is a turn. -/
theorem Course.turn_of_engaged {s s' : Standing M E K} {happenings : List (Happening M E K)}
    (h : Course s happenings s') (hs : s.service ≠ .engaged) (hs' : s'.service = .engaged) :
    ∃ happening ∈ happenings, happening.isTurn := by
  induction h with
  | refl => exact absurd hs' hs
  | @step history happenings now s' _ hchange ih =>
    by_cases hnow : now.service = .engaged
    · obtain ⟨happening, hmem, hturn⟩ := ih hnow
      exact ⟨happening, List.mem_append_left _ hmem, hturn⟩
    · suffices hgiven : ∃ happening ∈ happenings, happening.isTurn by
        obtain ⟨happening, hmem, hturn⟩ := hgiven
        exact ⟨happening, List.mem_append_right _ hmem, hturn⟩
      cases hchange with
      | @gives phase _ _ entry event =>
        refine ⟨_, List.mem_singleton_self _, ?_⟩
        cases entry <;> cases phase <;> rfl
      | _ => first | exact absurd hs' hnow | cases hs'

/-- By a panic in a delivery to the point the entry whose turn it is leaves. -/
theorem Moment.happenings_of_panic {m : Moment M E K H} {payload : Payload} {rest : List (Frame M E K H)}
    {entry : Entry K} {event : Event M E} (hcontrol : m.thread.control = .unwind payload)
    (htop : m.thread.stack = .delivering p :: rest) (hdue : (m.world.phase p).due = some (entry, event)) :
    m.happenings p = [.left entry false] := by
  obtain ⟨w, n, control, stack⟩ := m
  obtain rfl : control = .unwind payload := hcontrol
  obtain rfl : stack = .delivering p :: rest := htop
  have hturn : (w.phase p).turn? = some entry := Phase.turn?_of_due hdue
  simp [happenings, World.returns, hturn]

/-- Two panics in deliveries to a point are in different turns. -/
theorem Run.panics_in_turns {host : H} {before between after : List (Moment M E K H)}
    {first second : Moment M E K H} {payload payload' : Payload} {rest rest' : List (Frame M E K H)}
    (run : Run client (.initial host) trail w) (hs : SinksReturn trail)
    (heq : trail = before ++ first :: (between ++ second :: after))
    (hfirst : first.thread.control = .unwind payload)
    (htop : first.thread.stack = .delivering p :: rest)
    (hsecond : second.thread.control = .unwind payload')
    (htop' : second.thread.stack = .delivering p :: rest') :
    turnCount p before < turnCount p (before ++ first :: between) := by
  obtain ⟨hbefore, t, v, ht, hstep, hafter⟩ := run.split heq
  obtain ⟨hbetween, t', -, ht', -, -⟩ := hafter.split rfl
  subst heq
  obtain ⟨hs₁, hs₂⟩ := sinksReturn_append.mp hs
  rw [← List.singleton_append, sinksReturn_append] at hs₂
  have hs₃ := (sinksReturn_append.mp hs₂.2).1
  have hsound := hbefore.sound (World.initial_sound host) hs₁
  obtain ⟨s, course, stands⟩ := hbefore.course_of_initial hs₁ p
  have hcoherent := course.coherent Standing.initial_coherent
  obtain ⟨s', hchange, stands'⟩ := stands.of_step hsound hcoherent ht hstep
  have hv := hsound.of_step ht hstep (hs₂.1 _ List.mem_cons_self)
  obtain ⟨s'', course', stands''⟩ := hbetween.course hs₃ hv stands' (hchange.coherent hcoherent)
  -- the panic ends its turn
  have hleft : s'.service ≠ .engaged := by
    have hengaged := stands.engaged hsound.orderly (World.mem_of_thread? ht) htop (by simp [hfirst])
    obtain ⟨entry, event, hdue, -⟩ := hcoherent.turn (.inr hengaged)
    rw [Moment.happenings_of_panic hfirst htop (stands.phase_eq ▸ hdue)] at hchange
    obtain ⟨_, _, _, _, -, -, rfl⟩ := hchange.of_left
    rintro ⟨⟩
  have hengaged := stands''.engaged (hbetween.sound hv hs₃).orderly (World.mem_of_thread? ht') htop'
    (by simp [hsecond])
  have hturn := List.countP_pos_iff.mpr (course'.turn_of_engaged hleft hengaged)
  simp only [turnCount, history, List.flatMap_append, List.flatMap_cons, List.countP_append] at hturn ⊢
  omega

/-! ## Panics and declining -/

/-- A panic in a delivery is the same as declining, and one report. A run whose sinks only record is kept
company by one in which callbacks that panic when they have their turns, as many of them as one likes,
decline instead. In both the same callbacks are run, calls come back alike and find the points alike, and
the same is reported, in the second run without the reports that in the first follow upon these panics. Two
panics are in different turns, so that each can be spared or not. No panic leaves the call that serves the
point. -/
theorem panics_are_declines {host : H} (run : Run client (.initial host) trail w)
    (hc : client.Records view) (hb : ∀ m ∈ trail, m.Blind client view) (spared : Nat → Nat → Bool) :
    (∃ second v, Sparing client spared (.initial host) second v ∧
      view v.host = view w.host ∧ v.points = w.points ∧ v.tasks = w.tasks ∧
      (∀ p, invocations p second = invocations p trail) ∧ returns second = returns trail ∧
      (diagnoses second).map unnumbered = (diagnoses (unreported spared trail)).map unnumbered ∧
      (diagnoses second).map (·.2.seq) = List.range (diagnoses second).length) ∧
    (diagnoses trail).map (·.2.seq) = List.range (diagnoses trail).length ∧
    (∀ before m after payload p stack, trail = before ++ m :: after →
      m.thread.control = .unwind payload → m.thread.stack = .delivering p :: stack →
      stack.head? = some (.serving p) ∧ ∃ point, m.world.points[p]? = some point ∧
        ∀ next, after.find? (·.thread.id = m.thread.id) = some next → next.thread =
          ⟨m.thread.id, .act (point.report p .observerPanicked (some payload.info)), stack⟩) ∧
    (∀ before first between second after payload payload' p stack stack',
      trail = before ++ first :: (between ++ second :: after) →
      first.thread.control = .unwind payload → first.thread.stack = .delivering p :: stack →
      second.thread.control = .unwind payload' → second.thread.stack = .delivering p :: stack' →
      turnCount p before < turnCount p (before ++ first :: between)) ∧
    ∀ m ∈ trail, ∀ payload p stack, m.thread.control = .unwind payload →
      m.thread.stack ≠ .serving p :: stack := by
  obtain ⟨-, hreturn⟩ := run.recorded hc (World.initial_recorded host)
  obtain ⟨-, hinvocations, hreturns, hnumbers, second, host', seq, hcompany⟩ :=
    run.paired hc hb spared
  refine ⟨⟨second, _, hcompany.run, hcompany.view, rfl, rfl, ?_, ?_, hcompany.alike.diagnoses,
    numbers_length hcompany.numbers⟩, numbers_length hnumbers, ?_, ?_, ?_⟩
  · intro p
    exact hcompany.alike.invocations.trans (hinvocations p)
  · exact hcompany.alike.returns.trans hreturns
  · intro before m after payload p stack heq hcontrol htop
    exact run.panic_is_reported hreturn heq hcontrol htop
  · intro before first between second after payload payload' p stack stack' heq hfirst htop hsecond htop'
    exact run.panics_in_turns hreturn heq hfirst htop hsecond htop'
  · intro m hm payload p stack hcontrol htop
    obtain ⟨first, second, rfl⟩ := List.append_of_mem hm
    obtain ⟨hfirst, t, v, ht, -, -⟩ := run.split rfl
    have hsound := hfirst.sound (World.initial_sound host) (sinksReturn_append.mp hreturn).1
    have hfits := (hsound.disciplined m.thread (World.mem_of_thread? ht)).fits
    rw [hcontrol, htop] at hfits
    exact hfits _ rfl trivial

/-- A client some of whose observers panic, with the records in its hands. -/
def gloomyClient : Client Unit Unit Bool (List Record) where
  observer steady _ := if steady then .ret true else .panic (.text "lost")
  routine _ := .ret ()
  sink _ _ := .ret ()
  start code _ := .ret code
  poll _ _ := .ret (.done (.ok ()))
  render _ := .ret (.ok none)
  internalError := ()
  timeout := ()
  record entry records := records ++ [entry]
  bound _ _ records := records

theorem panics_are_declines_gloomy :
    let run := World.runCalls gloomyClient [] [.create "request" .recorder, .register 0 .active false,
      .register 0 .active true, .push 0 (.ofResponse () false)] 60
    (diagnoses run.1).map (·.2.kind) = [.observerPanicked] ∧
      ∃ second v, Sparing gloomyClient (fun _ _ => true) (.initial []) second v ∧
        v.points = run.2.points ∧ diagnoses second = [] := by
  intro run
  have hblind : ∀ m ∈ run.1, m.Blind gloomyClient fun _ => () := by
    have hnone : ∀ m ∈ run.1, m.thread.control.touchesHost = false := by decide
    intro m hm
    exact Moment.blind_of_not_touchesHost (hnone m hm)
  obtain ⟨⟨second, v, hsecond, -, hpoints, -, -, -, hdiagnoses, -⟩, -⟩ :=
    panics_are_declines (World.run_runCalls gloomyClient [] _ 60)
      ⟨fun _ _ => .ret (), fun _ _ => rfl⟩ hblind fun _ _ => true
  refine ⟨by decide, second, v, hsecond, hpoints, ?_⟩
  have hnone : diagnoses (unreported (fun _ _ => true) run.1) = [] := by decide
  rw [hnone] at hdiagnoses
  exact List.map_eq_nil_iff.mp hdiagnoses

end Exchange
