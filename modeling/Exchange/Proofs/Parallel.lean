import Exchange.Proofs.Forgoing
import Exchange.Proofs.Turnover

/-!
A registration that is refused leaves no trace. Beside a run in which such calls are made goes one in which
they are not: step by step the two exchanges look the same, and callbacks, points and all other diagnostics
do not tell them apart.
-/

namespace Exchange
set_option autoImplicit false

variable {M E K H V : Type} {client : Client M E K H} {start w w' : World M E K H} {t n p met : Nat}
  {thread : Thread M E K H}
variable {control : Control M E K H} {stack rest : List (Frame M E K H)}
variable {trail : List (Moment M E K H)} {moment : Moment M E K H} {view : H → V}
variable {chosen : Nat → Bool} {within : List Nat} {next : Reply M K → Code M E K H (Reply M K)}

/-! ## Exchanges -/

def Recast.excusing (within : List Nat) : Recast M E K H where
  host := id
  seq := id
  answers _ := id
  thread := Thread.excused within
  thread_id _ := Thread.excused_id
  thread_begins _ h := h.excused

theorem Recast.Shows.excusing (h : within.contains t = false) :
    (Recast.excusing within : Recast M E K H).Shows view t := by
  constructor
  · intro control stack ha
    exact (Thread.excused_outside h).trans (ha.quieted fun _ => rfl)
  · intro control stack hr
    exact (Thread.excused_outside h).trans hr.quieted

namespace World

/-- The thread is in the middle of a call that is not made where it is excused. -/
def Forgoes (view : H → V) (w : World M E K H) (n : Nat) : Prop :=
  ∃ control stack next rest, w.thread? n = some ⟨n, control, stack⟩ ∧ Forgone view next rest control stack

theorem Forgoes.step_other (h : w.Forgoes view n) (ho : w.Orderly) (ht : w.thread? t = some thread)
    (hs : w.step client t = some w') (hne : n ≠ t) : w'.Forgoes view n := by
  obtain ⟨control, stack, next, rest, hthread, hforgone⟩ := h
  obtain ⟨⟨m, -, stepped⟩, ho'⟩ := step_stepped ho ht hs
  exact ⟨control, stack, next, rest, stepped.keeps ho' hthread hne hforgone.ne_nil, hforgone⟩

theorem Forgoes.between (h : w.Forgoes view n) (ho : w.Orderly) (hb : Between client w w') :
    w'.Forgoes view n := by
  obtain ⟨control, stack, next, rest, hthread, hforgone⟩ := h
  obtain ⟨hinterlude, ho'⟩ := between_interlude ho hb
  exact ⟨control, stack, next, rest, keeps_of_interlude hinterlude ho' hthread hforgone.ne_nil, hforgone⟩

end World

theorem Recast.Suits.excusing (hw : w.Recorded view) (h : ∀ n, within.contains n → w.Forgoes view n) :
    (Recast.excusing within).Suits w := by
  have looks : ∀ thread ∈ w.threads, (∀ p, (thread.excused within).holdsPoint p = thread.holdsPoint p) ∧
      (thread.excused within).isOver = thread.isOver := by
    intro ⟨n, control, stack⟩ hthread
    cases hn : within.contains n with
    | false =>
      rw [Thread.excused_outside hn]
      exact ⟨fun _ => Thread.quieted_holdsPoint, (hw.heard _ hthread).quieted_isOver⟩
    | true =>
      obtain ⟨control', stack', next, rest, ht, hforgone⟩ := h n hn
      cases hw.orderly.eq_of_id_eq hthread (World.mem_of_thread? ht) rfl
      rw [hforgone.excused hn]
      exact ⟨hforgone.holdsPoint, hforgone.isOver⟩
  exact ⟨fun thread hthread => (looks thread hthread).1, fun thread hthread => (looks thread hthread).2,
    fun _ _ => rfl⟩

/-! ## Runs -/

/-- Of what a trail tells of callbacks, and of calls from outside all passes, nothing is missing. -/
structure Retains (kept trail : List (Moment M E K H)) : Prop where
  invocations : ∀ p, invocations p kept = invocations p trail
  callbacks : callbacks kept = callbacks trail
  outermost : kept.filter Moment.isOutermost = trail.filter Moment.isOutermost

namespace Retains
variable {kept : List (Moment M E K H)}

theorem snoc (h : Retains kept trail) : Retains (kept ++ [moment]) (trail ++ [moment]) := by
  constructor
  · intro p
    rw [invocations_append, invocations_append, h.invocations]
  · rw [callbacks_append, callbacks_append, h.callbacks]
  · rw [List.filter_append, List.filter_append, h.outermost]

theorem skip (h : Retains kept trail) (hinvocations : ∀ p, Exchange.invocations p [moment] = [])
    (hcallbacks : Exchange.callbacks [moment] = []) (hinside : moment.isOutermost = false) :
    Retains kept (trail ++ [moment]) := by
  constructor
  · intro p
    rw [invocations_append, hinvocations, List.append_nil, h.invocations]
  · rw [callbacks_append, hcallbacks, List.append_nil, h.callbacks]
  · rw [List.filter_append, List.filter_singleton, hinside, h.outermost]
    exact (List.append_nil _).symm

end Retains

/-- Whatever comes back from the call, its caller goes on in the same way. -/
def Thread.IgnoresReply (thread : Thread M E K H) : Prop :=
  ∀ next rest, thread.stack = .caller next :: rest → ∀ reply, next reply = next .done

/-- The step that makes a call that is refused. -/
theorem World.step_misplaced (hw : w.Recorded view) (ht : w.thread? t = some thread)
    (hm : Moment.isMisplaced ⟨w, thread⟩)
    (hserves : ∀ p point, w.points[p]? = some point → point.phase.access t = .inside →
      .serving p ∈ thread.stack)
    (hignores : thread.IgnoresReply) (hs : w.step client t = some w') :
    ∃ op next rest control stack, thread = ⟨t, .perform op, .caller next :: rest⟩ ∧
      Moment.isOutermost ⟨w, thread⟩ = false ∧ Forgone view next rest control stack ∧
      w' = w.put t control stack := by
  obtain ⟨n, p, interest, code, next, rest, point, rfl, hp, hinside⟩ := Moment.isMisplaced_some hm
  obtain rfl : n = t := World.id_of_thread? ht
  have hserving : Frame.serving p ∈ Frame.caller next :: rest := hserves p point hp hinside
  have ha : Thread.Apart ⟨n, .perform (.register p interest code), .caller next :: rest⟩ :=
    (hw.heard _ (World.mem_of_thread? ht)).apart_of_perform
  refine ⟨_, next, rest, _, _, rfl, List.all_eq_false.mpr ⟨_, hserving, by simp⟩,
    ⟨⟨p, point, false, by simpa using hserving, .refused⟩, ?_, hignores next rest rfl⟩, ?_⟩
  · exact fun frame hf => ha.stack frame (List.mem_cons_of_mem _ hf)
  · rw [World.step_of_move ht (World.move_misplaced hp hinside), Option.some_inj] at hs
    exact hs.symm

/-- Beside, the caller goes on without it. -/
theorem Beside.forgoes {first second : List (Moment M E K H)} {host : H} {seq : Nat} {op : Op M E K}
    (h : Beside (Forgoing client chosen start met) (.excusing within) view first w second host seq)
    (hw : w.Recorded view) (hthread : thread = ⟨t, .perform op, .caller next :: rest⟩)
    (ht : w.thread? t = some thread) (hout : within.contains t = false)
    (hm : Moment.isMisplaced ⟨w, thread⟩) (hchosen : chosen met)
    (hforgone : Forgone view next rest control stack) :
    Beside (Forgoing client chosen start (met + 1)) (.excusing (t :: within)) view first
      (w.put t control stack) second host seq := by
  subst hthread
  have ha : Thread.Apart ⟨t, .perform op, .caller next :: rest⟩ :=
    (hw.heard _ (World.mem_of_thread? ht)).apart_of_perform
  have hv : (w.recast ((Recast.excusing within).hosting host seq)).thread? t =
      some ⟨t, .perform op, .caller next :: rest⟩ := by
    have hshows : (Recast.excusing within : Recast M E K H).Shows view t := .excusing hout
    rw [World.recast_thread?, ht]
    exact congrArg some (hshows.apart ha)
  have hexcused : (Recast.excusing (t :: within)).thread ⟨t, control, stack⟩ = ⟨t, .eval (next .done), rest⟩ :=
    hforgone.excused (by simp)
  refine ⟨?_, h.view, h.alike, h.numbers⟩
  rw [World.put_recast (r := .excusing within) hexcused ?_ rfl]
  · exact h.run.forgoes hv hm hchosen hforgone.ignores
  · intro other hne
    exact Thread.excused_congr (by simp [hne])

/-- Of a call that is not made beside nothing is seen there, and when it is back the two callers are where they
would be. -/
theorem Beside.passes {goes : List (Moment M E K H) → World M E K H → Prop} {first second : List (Moment M E K H)}
    {host : H} {seq : Nat} (h : Beside goes (.excusing within) view first w second host seq)
    (ho : w.Orderly) (hc : client.Records view) (ht : w.thread? t = some ⟨t, control, stack⟩)
    (hforgone : Forgone view next rest control stack) (hin : within.contains t)
    (hs : w.step client t = some w') :
    Beside goes (.excusing (if Thread.isAnswered ⟨t, control, stack⟩ then within.filter (· ≠ t) else within))
      view first w' second host seq ∧
      w'.nextSeq = w.nextSeq + (if control.isReport then 1 else 0) ∧
      (Thread.isAnswered ⟨t, control, stack⟩ = false → w'.Forgoes view t) := by
  obtain ⟨m, hm, hnext⟩ := World.thread?_of_step ho ht hs
  rw [World.step_of_move ht hm, Option.some_inj] at hs
  cases ha : Thread.isAnswered (⟨t, control, stack⟩ : Thread M E K H) with
  | true =>
    obtain ⟨rfl, rfl⟩ := hforgone.answered ha
    cases hm
    subst hs
    have hlooks : Thread.excused (within.filter (· ≠ t)) ⟨t, .eval (next refusal), rest⟩ =
        Thread.excused within ⟨t, .resume refusal, .caller next :: rest⟩ := by
      have happart : Thread.Apart ⟨t, .eval (next refusal), rest⟩ := ⟨hforgone.plain, trivial⟩
      rw [hforgone.excused hin, Thread.excused_outside (by simp), happart.quieted fun _ => rfl,
        hforgone.ignores]
    refine ⟨h.rests w.host w.nextSeq ho ht hlooks ?_ rfl rfl, rfl, nofun⟩
    intro other hne
    exact Thread.excused_congr (by simp [hne])
  | false =>
    obtain ⟨hgoes, host', hworld, hview⟩ := hforgone.step hc ha hm
    have hlooks : Thread.excused within ⟨t, m.control, m.stack⟩ = Thread.excused within ⟨t, control, stack⟩ :=
      (hgoes.excused hin).trans (hforgone.excused hin).symm
    rw [hworld] at hs
    subst hs
    exact ⟨h.rests host' _ ho ht hlooks (fun _ _ => rfl) rfl hview, rfl,
      fun _ => ⟨_, _, next, rest, hnext, hgoes⟩⟩

/-- A run, what is left of its trail, and the run beside it in which the chosen calls are not made. -/
structure Parallel (client : Client M E K H) (view : H → V) (chosen : Nat → Bool) (start : World M E K H)
    (trail : List (Moment M E K H)) (w : World M E K H) : Prop where
  within : ∀ n, (removal chosen trail).within.contains n → w.Forgoes view n
  met : (removal chosen trail).met = trail.countP Moment.isMisplaced
  retains : Retains (remaining chosen trail) trail
  numbers : (diagnoses trail).map (·.2.seq) = List.range w.nextSeq
  beside : ∃ second host seq, Beside (Forgoing client chosen start (removal chosen trail).met)
    (.excusing (removal chosen trail).within) view (remaining chosen trail) w second host seq

namespace Parallel

theorem initial (host : H) : Parallel client view chosen (.initial host) [] (.initial host) := by
  refine ⟨by simp [removal], rfl, ⟨fun _ => rfl, rfl, rfl⟩, rfl, [], host, 0, .refl, rfl, .refl, rfl⟩

/-- A step of a call that is not made beside. -/
theorem passes (h : Parallel client view chosen start trail w) (hw : w.Recorded view)
    (hc : client.Records view) (ht : w.thread? t = some thread)
    (hin : (removal chosen trail).within.contains t) (hs : w.step client t = some w') :
    Parallel client view chosen start (trail ++ [⟨w, thread⟩]) w' := by
  obtain ⟨control, stack, next, rest, ht', hforgone⟩ := h.within t hin
  cases ht.symm.trans ht'
  obtain ⟨second, host, seq, hbeside⟩ := h.beside
  obtain ⟨hnext, hseq, hforgoes⟩ := hbeside.passes hw.orderly hc ht hforgone hin hs
  have hremoval := removal_of_within ⟨w, ⟨t, control, stack⟩⟩ hin
  refine ⟨?_, ?_, ?_, ?_, second, host, seq, ?_⟩
  · intro n hn
    rw [hremoval] at hn
    by_cases hne : n = t
    · subst hne
      apply hforgoes
      by_contra ha
      rw [Bool.not_eq_false] at ha
      simp [ha] at hn
    · refine (h.within n ?_).step_other hw.orderly ht hs hne
      dsimp only at hn
      split at hn
      · simpa [hne] using hn
      · exact hn
  · rw [hremoval, List.countP_append, List.countP_singleton, hforgone.not_isMisplaced, h.met]
    rfl
  · rw [remaining, hremoval]
    exact h.retains.skip hforgone.silent.1 hforgone.silent.2 hforgone.not_outermost
  · rw [hseq]
    exact numbers_snoc _ h.numbers
  · rw [remaining, hremoval]
    exact hnext

/-- A call that is not made beside. -/
theorem begins (h : Parallel client view chosen start trail w) (hw : w.Recorded view)
    (ht : w.thread? t = some thread) (hout : (removal chosen trail).within.contains t = false)
    (hmisplaced : Moment.isMisplaced ⟨w, thread⟩) (hchosen : chosen (removal chosen trail).met)
    (hserves : ∀ p point, w.points[p]? = some point → point.phase.access t = .inside →
      .serving p ∈ thread.stack)
    (hignores : thread.IgnoresReply) (hs : w.step client t = some w') :
    Parallel client view chosen start (trail ++ [⟨w, thread⟩]) w' := by
  obtain rfl := World.id_of_thread? ht
  obtain ⟨second, host, seq, hbeside⟩ := h.beside
  obtain ⟨op, next, rest, control, stack, hthread, hinner, hforgone, hnext⟩ :=
    World.step_misplaced hw ht hmisplaced hserves hignores hs
  have hremoval := removal_of_chosen ⟨w, thread⟩ hout (by rw [hmisplaced, hchosen, Bool.and_self])
  have hnot : ∀ due, thread.control ≠ .act due := hthread ▸ nofun
  refine ⟨?_, ?_, ?_, ?_, second, host, seq, ?_⟩
  · intro n hn
    rw [hremoval] at hn
    by_cases hne : n = thread.id
    · subst hne
      refine ⟨control, stack, next, rest, ?_, hforgone⟩
      rw [hnext]
      exact World.thread?_put (Option.isSome_of_eq_some ht)
    · have hbefore : (removal chosen trail).within.contains n := by simpa [hne] using hn
      exact (h.within n hbefore).step_other hw.orderly ht hs hne
  · rw [hremoval, List.countP_append, List.countP_singleton, if_pos hmisplaced, h.met]
  · rw [remaining, hremoval]
    exact h.retains.skip (fun _ => invocations_of_not_act hnot) (callbacks_of_not_act hnot) hinner
  · have hnumbers := numbers_snoc ⟨w, thread⟩ h.numbers
    rw [hthread] at hnumbers
    rw [hnext, hthread]
    exact hnumbers
  · rw [remaining, hremoval, hnext]
    exact hbeside.forgoes hw hthread ht hout hmisplaced hchosen hforgone

/-- Any other step. -/
theorem goes (h : Parallel client view chosen start trail w) (hw : w.Recorded view) (hc : client.Records view)
    (hb : Moment.Blind client view ⟨w, thread⟩) (ht : w.thread? t = some thread)
    (hout : (removal chosen trail).within.contains t = false)
    (hm : (Moment.isMisplaced ⟨w, thread⟩ && chosen (removal chosen trail).met) = false)
    (hs : w.step client t = some w') : Parallel client view chosen start (trail ++ [⟨w, thread⟩]) w' := by
  obtain rfl := World.id_of_thread? ht
  obtain ⟨second, host, seq, hbeside⟩ := h.beside
  let met := (removal chosen trail).met + if Moment.isMisplaced ⟨w, thread⟩ then 1 else 0
  have hgoes (v v' : World M E K H) (hpoints : v.points = w.points) (hv : v.thread? thread.id = some thread)
      (hrun : Forgoing client chosen start (removal chosen trail).met second v)
      (hstep : v.step client thread.id = some v') :
      Forgoing client chosen start met (second ++ [⟨v, thread⟩]) v' := by
    have hsame : Moment.isMisplaced ⟨v, thread⟩ = Moment.isMisplaced ⟨w, thread⟩ :=
      Moment.isMisplaced_congr hpoints
    have hnext := hrun.step hv (by rw [hsame, hm]) hstep
    rwa [hsame] at hnext
  have hsame (hr : thread.isReporting ∨ thread.control.isReport) :
      Forgoing client chosen start met = Forgoing client chosen start (removal chosen trail).met := by
    have hnot := Moment.not_isMisplaced_of_reporting (w := w) hr
    simp only [met, hnot, Bool.false_eq_true, if_false, Nat.add_zero]
  obtain ⟨hnext, hseq⟩ := hbeside.follows hw hc hb (.excusing hw h.within) (fun _ => rfl) (.excusing hout)
    .forgoing ht hgoes hsame hs
  have hremoval := removal_of_other ⟨w, thread⟩ hout hm
  refine ⟨?_, ?_, ?_, ?_, ?_⟩
  · intro n hn
    rw [hremoval] at hn
    refine (h.within n hn).step_other hw.orderly ht hs ?_
    rintro rfl
    rw [hout] at hn
    cases hn
  · rw [hremoval, List.countP_append, List.countP_singleton, h.met]
  · rw [remaining, hremoval]
    exact h.retains.snoc
  · rw [hseq]
    exact numbers_snoc ⟨w, thread⟩ h.numbers
  · rw [remaining, hremoval]
    exact hnext

theorem of_between (h : Parallel client view chosen start trail w) (hw : w.Recorded view)
    (hb : Between client w w') : Parallel client view chosen start trail w' := by
  obtain ⟨second, host, seq, hbeside⟩ := h.beside
  obtain ⟨hseq, host', hnext⟩ := hbeside.between (.excusing hw h.within)
    (fun _ _ hrun hbetween => hrun.between hbetween) hb
  exact ⟨fun n hn => (h.within n hn).between hw.orderly hb, h.met, h.retains, hseq ▸ h.numbers, second, host',
    seq, hnext⟩

end Parallel

theorem Run.parallel {host : H} (run : Run client (.initial host) trail w) (hc : client.Records view)
    (hb : ∀ m ∈ trail, m.Blind client view)
    (hignores : ∀ before m after, trail = before ++ m :: after → m.isMisplaced →
      chosen (before.countP Moment.isMisplaced) → m.thread.IgnoresReply) :
    Parallel client view chosen (.initial host) trail w := by
  induction run with
  | refl => exact .initial host
  | @step trail w w' t thread before ht hs ih =>
    obtain ⟨hw, hreturn⟩ := before.recorded hc (World.initial_recorded host)
    have hparallel := ih (fun m hm => hb m (List.mem_append_left _ hm))
      fun first m after heq => hignores first m (after ++ [⟨w, thread⟩]) (by simp [heq])
    cases hin : (removal chosen trail).within.contains t with
    | true => exact hparallel.passes hw hc ht hin hs
    | false =>
      cases hm : Moment.isMisplaced ⟨w, thread⟩ && chosen (removal chosen trail).met with
      | false =>
        exact hparallel.goes hw hc (hb _ (List.mem_append_right _ List.mem_cons_self)) ht hin hm hs
      | true =>
        obtain ⟨hmisplaced, hchosen⟩ := (Bool.and_eq_true _ _).mp hm
        refine hparallel.begins hw ht hin hmisplaced hchosen ?_ ?_ hs
        · intro p point hp hinside
          obtain ⟨pass, hpass⟩ := World.access_inside hinside
          by_contra hserves
          exact before.outside hreturn ht hserves pass (by simp [World.phase, hp, hpass])
        · exact hignores trail _ [] rfl hmisplaced (hparallel.met ▸ hchosen)
  | between before hbetween ih =>
    exact (ih hb hignores).of_between (before.recorded hc (World.initial_recorded host)).1 hbetween

/-- A registration from inside the pass of its point comes back refused, is reported once and runs no
callback. Such calls may be left out, as many of them as one likes, if whoever makes them ignores what comes
back: a run whose sinks only record is kept company by one in which these calls are not made. In both the same
callbacks are run, the points are alike whenever a call from outside all passes comes back, and at the end, and
the same is reported, but for what these calls report. -/
theorem misplaced_registrations_leave_no_trace {host : H} (run : Run client (.initial host) trail w)
    (hc : client.Records view) (hb : ∀ m ∈ trail, m.Blind client view) (chosen : Nat → Bool)
    (hignores : ∀ before m after, trail = before ++ m :: after → m.isMisplaced →
      chosen (before.countP Moment.isMisplaced) → m.thread.IgnoresReply) :
    (∃ second v, Forgoing client chosen (.initial host) (trail.countP Moment.isMisplaced) second v ∧
      view v.host = view w.host ∧ v.points = w.points ∧ v.tasks = w.tasks ∧
      (∀ p, invocations p second = invocations p trail) ∧ callbacks second = callbacks trail ∧
      outermostReturns second = outermostReturns trail ∧
      returns second = returns (remaining chosen trail) ∧
      (diagnoses second).map unnumbered = (diagnoses (remaining chosen trail)).map unnumbered ∧
      (diagnoses second).map (·.2.seq) = List.range (diagnoses second).length) ∧
    (diagnoses trail).map (·.2.seq) = List.range (diagnoses trail).length ∧
    ∀ m ∈ trail, m.isMisplaced → ∃ p interest code below point,
      m.thread = ⟨m.thread.id, .perform (.register p interest code), below⟩ ∧
      m.world.points[p]? = some point ∧
      (∃ during x, Call client m.thread.id below (.register p interest code) m.world during x ∧
        x.IsBack m.thread.id below) ∧
      ∀ during x, Call client m.thread.id below (.register p interest code) m.world during x →
        x.IsBack m.thread.id below →
        x.thread? m.thread.id = some ⟨m.thread.id, .resume (.registered (.error .reentrantRegistration)), below⟩ ∧
        TellsOnly m.thread.id [point.refusalReport p] during := by
  obtain ⟨-, hmet, hretains, hnumbers, second, host', seq, hbeside⟩ := run.parallel hc hb hignores
  have hsecond := hbeside.run
  rw [hmet] at hsecond
  refine ⟨⟨second, _, hsecond, hbeside.view, rfl, World.recast_tasks fun _ => rfl, ?_, ?_, ?_,
    hbeside.alike.returns, hbeside.alike.diagnoses, numbers_length hbeside.numbers⟩, numbers_length hnumbers, ?_⟩
  · intro p
    exact hbeside.alike.invocations.trans (hretains.invocations p)
  · exact hbeside.alike.callbacks.trans hretains.callbacks
  · exact hbeside.alike.outermost.trans (congrArg returns hretains.outermost)
  · intro ⟨v, thread⟩ hm hmisplaced
    obtain ⟨before, after, rfl⟩ := List.append_of_mem hm
    obtain ⟨hbefore, t, -, ht, -, -⟩ := run.split rfl
    obtain ⟨hv, -⟩ := hbefore.recorded hc (World.initial_recorded host)
    obtain ⟨n, p, interest, code, next, rest, point, rfl, hp, hinside⟩ := Moment.isMisplaced_some hmisplaced
    obtain rfl : n = t := World.id_of_thread? ht
    have ha := (hv.heard _ (World.mem_of_thread? ht)).apart_of_perform
    refine ⟨p, interest, code, .caller next :: rest, point, rfl, hp,
      World.refusal_comes_back ht hc hp hinside, ?_⟩
    intro during x call hback
    exact call.comes_back_refused hc hv hp hinside ha.stack (List.cons_ne_nil _ _) hback

/-- A client one of whose observers registers another from inside its pass and does not ask how that went. -/
def eagerClient : Client Unit Unit Bool (List Record) where
  observer eager _ := if eager then .call (.register 0 .active false) fun _ => .ret true else .ret true
  routine _ := .ret ()
  sink _ _ := .ret ()
  start code _ := .ret code
  poll _ _ := .ret (.done (.ok ()))
  render _ := .ret (.ok none)
  internalError := ()
  timeout := ()
  record entry records := records ++ [entry]
  bound _ _ records := records

theorem misplaced_registrations_leave_no_trace_eager :
    let run := World.runCalls eagerClient [] [.create "request" .recorder, .register 0 .active true,
      .push 0 (.ofResponse () false)] 60
    (diagnoses run.1).map (fun diagnosis => (diagnosis.2.kind, diagnosis.2.reason)) =
        [(.reentrantCall, some "usage_reentrant_registration")] ∧
      ∃ second v, Forgoing eagerClient (fun _ => true) (.initial []) 1 second v ∧ v.points = run.2.points ∧
        (callbacks second).length = 1 ∧ diagnoses second = [] := by
  intro run
  have hblind : ∀ m ∈ run.1, m.Blind eagerClient fun _ => () := by
    have hnone : ∀ m ∈ run.1, m.thread.control.touchesHost = false := by decide
    intro m hm
    exact Moment.blind_of_not_touchesHost (hnone m hm)
  have hcall : ∃ next rest, run.1[11]?.map (·.thread.stack) = some (.caller next :: rest) ∧
      ∀ reply, next reply = next .done := by
    refine ⟨_, _, rfl, ?_⟩
    intro reply
    rfl
  have hone : ∀ i < run.1.length, i ≠ 11 → run.1[i]?.any Moment.isMisplaced = false := by decide
  have hignores : ∀ before m after, run.1 = before ++ m :: after → m.isMisplaced →
      true → m.thread.IgnoresReply := by
    intro before m after heq hm _ next rest hstack
    have hget : run.1[before.length]? = some m := by simp [heq]
    have hlt : before.length < run.1.length := by simp [heq]
    have hat : before.length = 11 := by
      by_contra hne
      have hnot := hone _ hlt hne
      rw [hget, Option.any_some, hm] at hnot
      cases hnot
    obtain ⟨next', rest', hcaller, hsame⟩ := hcall
    rw [← hat, hget, Option.map_some, hstack, Option.some_inj, List.cons_eq_cons] at hcaller
    obtain ⟨hframe, -⟩ := hcaller
    cases hframe
    exact hsame
  obtain ⟨⟨second, v, hsecond, -, hpoints, -, -, hcallbacks, -, -, hdiagnoses, -⟩, -⟩ :=
    misplaced_registrations_leave_no_trace (World.run_runCalls eagerClient [] _ 60)
      ⟨fun _ _ => .ret (), fun _ _ => rfl⟩ hblind (fun _ => true) hignores
  have hmet : run.1.countP Moment.isMisplaced = 1 := by decide
  have hnone : diagnoses (remaining (fun _ => true) run.1) = [] := by decide
  rw [hnone] at hdiagnoses
  refine ⟨by decide, second, v, hmet ▸ hsecond, hpoints, ?_, List.map_eq_nil_iff.mp hdiagnoses⟩
  rw [hcallbacks]
  decide

end Exchange
