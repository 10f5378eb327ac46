import Exchange.Proofs.Account
import Exchange.Proofs.Chronicle
import Exchange.Proofs.HandOver

/-!
Producers whose time is up. Their binding cancels the task, and by the time the turn is over it has
pushed the final response, which ends the point if nothing else has.
-/

namespace Exchange
set_option autoImplicit false

variable {M E K H : Type} {client : Client M E K H} {w w' : World M E K H} {t n : Nat}
  {thread : Thread M E K H}
variable {control : Control M E K H} {stack : List (Frame M E K H)} {m : Move M E K H}
variable {task task' : Task K} {trail : List (Moment M E K H)}

/-- The binding is about to cancel the task; then it reports that its time is up and pushes the final
response. -/
inductive Dunning (client : Client M E K H) (t : Nat) (task : Task K) :
    Control M E K H → List (Frame M E K H) → Prop
  | owes {reply : Reply M K} (limit : Duration) : Dunning client t task (.resume reply)
      [.acts task.point [.cancel t, task.report .producerTimedOut (some limit.text),
        task.answer client.timeout] .done, .turn t (.closing .timedOut)]
  | turns (limit : Duration) : Dunning client t task (.act (.cancel t))
      [.acts task.point [task.report .producerTimedOut (some limit.text),
        task.answer client.timeout] .done, .turn t (.closing .timedOut)]

/-- The final response to a producer whose time is up is still to be pushed. -/
inductive Owing (client : Client M E K H) (t : Nat) (task : Task K) :
    Control M E K H → List (Frame M E K H) → Prop
  | later {control : Control M E K H} (above : List (Frame M E K H)) {todo : List (Act M E K)} :
      (∀ act ∈ todo, act.IsQuiet) → task.answer client.timeout ∈ todo →
      Owing client t task control
        (above ++ [.acts task.point todo .done, .turn t (.closing .timedOut)])
  | turns {todo : List (Act M E K)} : Owing client t task (.act (task.answer client.timeout))
      [.acts task.point todo .done, .turn t (.closing .timedOut)]
  | pushes {todo : List (Act M E K)} :
      Owing client t task (.perform (.push task.point (.ofResponse client.timeout true)))
        [.acts task.point todo .done, .turn t (.closing .timedOut)]

theorem Dunning.later (h : Dunning client t task control stack) (hl : task.Later task') :
    Dunning client t task' control stack := by
  have hreport (reason : Option String) : (task.report .producerTimedOut reason : Act M E K) =
      task'.report .producerTimedOut reason := by
    simp only [Task.report, hl.name, hl.sink]
  have hanswer : (task.answer client.timeout : Act M E K) = task'.answer client.timeout := by
    simp only [Task.answer, hl.point]
  cases h with
  | owes limit =>
    rw [hreport, hanswer, ← hl.point]
    exact .owes limit
  | turns limit =>
    rw [hreport, hanswer, ← hl.point]
    exact .turns limit

namespace Owing

theorem mono (h : Owing client t task control stack) (hl : task.Later task') :
    Owing client t task' control stack := by
  have hanswer : (task.answer client.timeout : Act M E K) = task'.answer client.timeout := by
    simp only [Task.answer, hl.point]
  cases h with
  | later above hquiet hmem =>
    rw [← hl.point]
    exact .later above hquiet (hanswer ▸ hmem)
  | turns =>
    rw [hanswer, ← hl.point]
    exact .turns
  | pushes =>
    rw [← hl.point]
    exact .pushes

theorem inTurn (h : Owing client t task control stack) : InTurn t stack := by
  cases h <;> exact ⟨.closing .timedOut, by simp⟩

theorem ne_nil (h : Owing client t task control stack) : stack ≠ [] := by
  intro hnil
  exact World.not_inTurn_nil (hnil ▸ h.inTurn)

/-- The push comes nearer, or it is made. -/
theorem step (h : Owing client t task control stack) (hm : w.move client n stack control = some m)
    (hs : Stacked stack) (hsecure : Thread.Secure ⟨n, control, stack⟩)
    (hp : ∃ point, w.points[task.point]? = some point) :
    Owing client t task m.control m.stack ∨
      ∃ reception, .pushed (.ofResponse client.timeout true) reception ∈
        Moment.happenings task.point ⟨w, ⟨n, control, stack⟩⟩ := by
  cases h with
  | @later control above todo hquiet hmem =>
    left
    cases above with
    | cons frame above =>
      rw [List.cons_append] at hm hs
      obtain ⟨frames, hstack, -⟩ := (World.move_stride hm).base hs.seated
      rw [hstack]
      exact .later frames hquiet hmem
    | nil =>
      have hcontrol := hsecure.control (.acts hquiet (.closing t .timedOut))
      by_cases hreturn : control.IsReturn
      · cases control with
        | resume reply =>
          cases hm
          cases todo with
          | nil => cases hmem
          | cons first todo =>
            rcases List.mem_cons.mp hmem with rfl | hrest
            · exact .turns
            · exact .later [] (fun act hact => hquiet act (List.mem_cons_of_mem _ hact)) hrest
        | unwind => exact hcontrol.elim
        | _ => exact hreturn.elim
      · obtain ⟨frames, hstack⟩ := (World.move_stride hm).keeps hs.seated hreturn
        rw [hstack]
        exact .later frames hquiet hmem
  | turns =>
    cases hm
    exact .inl .pushes
  | pushes =>
    right
    obtain ⟨point, hp⟩ := hp
    cases hphase : point.phase <;>
      simp [Moment.happenings, World.receives, hp, Op.waitsFor?, Point.receives, hphase]

end Owing

/-- Whoever is about to cancel the task, other than by a notice or at the client's request, does so
because its time is up. -/
def World.Duns (client : Client M E K H) (t : Nat) (w : World M E K H) : Prop :=
  ∀ thread ∈ w.threads, ∀ q, (q, .cancel t) ∈ duesOf thread.control thread.stack →
    ∃ task, w.tasks[t]? = some task ∧ Dunning client t task thread.control thread.stack

/-- What becomes of a thread that is about to cancel the task. -/
theorem Dunning.step (h : Dunning client t task control stack)
    (hm : w.move client n stack control = some m) :
    (control ≠ .act (.cancel t) ∧ Dunning client t task m.control m.stack) ∨
      control = .act (.cancel t) ∧ Owing client t task m.control m.stack ∧
        ∀ q, (q, .cancel t) ∉ duesOf m.control m.stack := by
  cases h with
  | owes limit =>
    cases hm
    exact .inl ⟨nofun, .turns limit⟩
  | turns limit =>
    cases hm
    refine .inr ⟨rfl, .later [] ?_ ?_, ?_⟩
    · simp [Task.report, Task.answer, Act.IsQuiet]
    · simp
    · simp [World.act, Move.answer, duesOf, Control.dues, Frame.dues, Task.report, Task.answer]

theorem World.Duns.of_step (h : w.Duns client t) (hw : w.Settled) (ht : w.thread? n = some thread)
    (hs : w.step client n = some w') : w'.Duns client t := by
  obtain ⟨⟨m, hm, stepped⟩, -⟩ := World.step_stepped hw.orderly ht hs
  have htasks := World.step_tasks hm ht hs
  have hchange : TaskChange w thread.control thread.stack w'.tasks := htasks ▸ World.move_tasks hm
  have hmem := World.mem_of_thread? ht
  -- the task may have changed, but not what the binding says of it
  have still {control : Control M E K H} {stack : List (Frame M E K H)}
      (h : ∃ task, w.tasks[t]? = some task ∧ Dunning client t task control stack) :
      ∃ task, w'.tasks[t]? = some task ∧ Dunning client t task control stack := by
    obtain ⟨task, htask, hdunning⟩ := h
    obtain ⟨task', htask', hchanges⟩ := hchange.get htask
    exact ⟨task', htask', hdunning.later hchanges.later⟩
  intro other hother q hdue
  rcases stepped.succession.others_after hother with rfl | hbefore | hbare
  · apply still
    rcases World.move_dues hm (hw.rooted.last thread hmem) hdue with hold | hincurs
    · obtain ⟨task, htask, hdunning⟩ := h thread hmem q hold
      rcases hdunning.step hm with ⟨-, hnext⟩ | ⟨-, -, hnone⟩
      · exact ⟨task, htask, hnext⟩
      · exact absurd hdue (hnone q)
    · generalize thread.control = control, thread.stack = stack at hincurs
      cases hincurs with
      | mere hmere => exact hmere.elim
      | @closes u _ task ending _ _ _ htask hact =>
        cases ending with
        | timedOut limit =>
          obtain rfl : t = u := by
            simpa [Ending.acts, Ending.outcome, Ending.report, Ending.response] using hact
          exact ⟨task, htask, .owes limit⟩
        | _ => simp [Ending.acts, Ending.outcome, Ending.report, Ending.response] at hact
  · exact still (h other hbefore q hdue)
  · rw [hbare.dues] at hdue
    cases hdue

theorem World.Duns.of_between (h : w.Duns client t) (hb : Between client w w') :
    w'.Duns client t := by
  obtain ⟨u, hturns⟩ := World.between_tasks hb
  intro other hother q hdue
  rcases World.between_threads hb hother with hbefore | hscheduled
  · obtain ⟨task, htask, hdunning⟩ := h other hbefore q hdue
    obtain ⟨task', htask', hsame⟩ := hturns.get htask
    exact ⟨task', htask', hdunning.later hsame.later⟩
  · exact (hscheduled.dues hdue).elim

/-- If the binding has cancelled the task because its time is up, the final response is still to be
pushed, or has been. -/
inductive Overtime (client : Client M E K H) (t : Nat) (w : World M E K H)
    (trail : List (Moment M E K H)) : Prop
  | never : (∀ m ∈ trail, m.thread.control ≠ .act (.cancel t)) → Overtime client t w trail
  | owing {task : Task K} {thread : Thread M E K H} : w.tasks[t]? = some task →
      thread ∈ w.threads → Owing client t task thread.control thread.stack →
      Overtime client t w trail
  | pushed {task : Task K} (reception : Reception) : w.tasks[t]? = some task →
      .pushed (.ofResponse client.timeout true) reception ∈ history task.point trail →
      Overtime client t w trail

theorem Overtime.of_step (h : Overtime client t w trail) (hw : w.Settled) (hg : w.Grounded)
    (hd : w.Duns client t) (ha : thread.control.Aimed thread.stack.head?)
    (ht : w.thread? n = some thread) (hs : w.step client n = some w') :
    Overtime client t w' (trail ++ [⟨w, thread⟩]) := by
  obtain rfl := World.id_of_thread? ht
  obtain ⟨⟨m, hm, stepped⟩, -⟩ := World.step_stepped hw.orderly ht hs
  have htasks := World.step_tasks hm ht hs
  have hchange : TaskChange w thread.control thread.stack w'.tasks := htasks ▸ World.move_tasks hm
  have hmem := World.mem_of_thread? ht
  cases h with
  | never hnever =>
    by_cases hcancel : thread.control = .act (.cancel t)
    · obtain ⟨q, todo, answer, htop⟩ : ∃ q todo answer, thread.stack.head? =
          some (.acts q todo answer) := by
        rw [hcancel] at ha
        exact ha
      have hdue : (q, .cancel t) ∈ duesOf thread.control thread.stack := by
        simp [duesOf, hcancel, Control.dues, htop]
      obtain ⟨task, htask, hdunning⟩ := hd thread hmem q hdue
      obtain ⟨task', htask', hchanges⟩ := hchange.get htask
      rcases hdunning.step hm with ⟨hother, -⟩ | ⟨-, howing, -⟩
      · exact absurd hcancel hother
      · exact .owing htask' stepped.succession.mem_after (howing.mono hchanges.later)
    · apply Overtime.never
      intro moment hmoment
      rcases List.mem_append.mp hmoment with hmoment | hmoment
      · exact hnever moment hmoment
      · rw [List.mem_singleton.mp hmoment]
        exact hcancel
  | @owing task other htask hother howing =>
    obtain ⟨task', htask', hchanges⟩ := hchange.get htask
    by_cases hsame : other.id = thread.id
    · obtain rfl := hw.orderly.eq_of_id_eq hother hmem hsame
      rcases howing.step hm (hw.disciplined other hmem).stacked (hw.secure other hmem)
        (hg t task htask) with hnext | ⟨reception, hpushed⟩
      · exact .owing htask' stepped.succession.mem_after (hnext.mono hchanges.later)
      · refine .pushed reception htask' ?_
        rw [hchanges.later.point, history_append]
        exact List.mem_append_right _ (List.mem_flatMap.mpr ⟨_, List.mem_cons_self, hpushed⟩)
    · refine .owing htask' ?_ (howing.mono hchanges.later)
      rcases stepped.succession.others_before hother with rfl | hafter | hbare
      · exact absurd rfl hsame
      · exact hafter
      · exact absurd hbare.stack_eq howing.ne_nil
  | pushed reception htask hpushed =>
    obtain ⟨task', htask', hchanges⟩ := hchange.get htask
    refine .pushed reception htask' ?_
    rw [hchanges.later.point, history_append]
    exact List.mem_append_left _ hpushed

theorem Overtime.of_between (h : Overtime client t w trail) (hw : w.Sound)
    (hb : Between client w w') : Overtime client t w' trail := by
  obtain ⟨hinterlude, ho'⟩ := World.between_interlude hw.orderly hb
  obtain ⟨u, hturns⟩ := World.between_tasks hb
  cases h with
  | never hnever => exact .never hnever
  | owing htask hthread howing =>
    obtain ⟨task', htask', hsame⟩ := hturns.get htask
    have hfound := World.keeps_of_interlude hinterlude ho' (hw.orderly.thread?_eq hthread)
      howing.ne_nil
    exact .owing htask' (World.mem_of_thread? hfound) (howing.mono hsame.later)
  | pushed reception htask hpushed =>
    obtain ⟨task', htask', hsame⟩ := hturns.get htask
    exact .pushed reception htask' (hsame.point ▸ hpushed)

theorem Run.overtime {host : H} (run : Run client (.initial host) trail w) (hs : SinksReturn trail)
    (t : Nat) : w.Duns client t ∧ Overtime client t w trail := by
  induction run with
  | refl =>
    refine ⟨?_, .never (by simp)⟩
    intro thread hthread q hdue
    rw [List.mem_singleton.mp hthread] at hdue
    cases hdue
  | @step trail w w' n thread before ht hstep ih =>
    obtain ⟨hs, -⟩ := sinksReturn_append.mp hs
    obtain ⟨hduns, hovertime⟩ := ih hs
    have hw := before.settled (World.initial_settled host) hs
    have haimed := before.aimed hs thread (World.mem_of_thread? ht)
    exact ⟨hduns.of_step hw ht hstep, hovertime.of_step hw (before.grounded hs) hduns haimed ht hstep⟩
  | between before hb ih =>
    obtain ⟨hduns, hovertime⟩ := ih hs
    exact ⟨hduns.of_between hb, hovertime.of_between (before.sound (World.initial_sound host) hs) hb⟩

/-- A task that is cancelled because its time is up has the final response pushed by the end of its
turn. -/
theorem Run.pushed_of_overtime {host : H} (run : Run client (.initial host) trail w)
    (hs : SinksReturn trail) (ht : w.tasks[t]? = some task) (hturn : w.Unattended t)
    {moment : Moment M E K H} (hmem : moment ∈ trail)
    (hcancel : moment.thread.control = .act (.cancel t)) :
    ∃ reception, .pushed (.ofResponse client.timeout true) reception ∈ history task.point trail := by
  cases (run.overtime hs t).2 with
  | never hnever => exact absurd hcancel (hnever moment hmem)
  | owing _ hthread howing => exact absurd howing.inTurn (hturn _ hthread)
  | pushed reception htask hpushed =>
    cases ht.symm.trans htask
    exact ⟨reception, hpushed⟩

end Exchange
