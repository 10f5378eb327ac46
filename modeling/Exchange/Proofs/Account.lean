import Exchange.Proofs.Tenure

/-!
What a binding does for its producer, read off a run: by the time the task is over, the binding has
done what the row of the outcome says, no more and no less, and the outcome is the one that follows
from what was found of the producer.
-/

namespace Exchange
set_option autoImplicit false

variable {M E K H : Type} {client : Client M E K H} {w w' : World M E K H} {t n : Nat}
  {thread : Thread M E K H}
variable {control : Control M E K H} {stack : List (Frame M E K H)} {m : Move M E K H}
variable {task task' : Task K} {found : List (Finding M K)} {acts : List (Act M E K)}

/-! ## The task, while nothing comes back to its turn -/

theorem Task.Changes.pending (h : task.Changes t control stack task') (ha : ¬AtTurn t control stack)
    (hp : task.Pending) : task'.Pending := by
  cases h with
  | rests => exact hp
  | cancels => exact ⟨hp.unsettled, hp.timely⟩
  | spawns =>
    unfold Task.spawn
    split
    · exact ⟨rfl, hp.timely⟩
    · exact hp
  | turns hreturn hstack => exact absurd ⟨⟨_, _, hstack⟩, hreturn⟩ ha

theorem Task.Changes.over {outcome : Outcome} (h : task.Changes t control stack task')
    (ha : ¬AtTurn t control stack) (ho : task.state = .over outcome) :
    task'.state = .over outcome := by
  cases h with
  | rests => exact ho
  | cancels => exact ho
  | spawns =>
    unfold Task.spawn
    rw [ho]
    exact ho
  | turns hreturn hstack => exact absurd ⟨⟨_, _, hstack⟩, hreturn⟩ ha

theorem AtTurn.inTurn (h : AtTurn t control stack) : InTurn t stack := by
  obtain ⟨⟨stage, rest, rfl⟩, -⟩ := h
  exact ⟨stage, List.mem_cons_self⟩

theorem Moment.bindingAct?_eq_none (h : ¬InTurn t stack) :
    Moment.bindingAct? t ⟨w, ⟨n, control, stack⟩⟩ = none := by
  unfold bindingAct?
  split
  · rename_i hthread
    split
    · rename_i hsame
      cases hthread
      subst hsame
      exact absurd ⟨_, List.mem_cons_of_mem _ List.mem_cons_self⟩ h
    · rfl
  · rfl

theorem Moment.bindingAct?_of_return (h : control.IsReturn) :
    Moment.bindingAct? t ⟨w, ⟨n, control, stack⟩⟩ = none := by
  cases control with
  | resume => rfl
  | unwind => rfl
  | _ => exact h.elim

/-! ## The account of a task -/

/-- No thread is in the middle of the task's turn. -/
def World.Unattended (w : World M E K H) (t : Nat) : Prop := ∀ thread ∈ w.threads, ¬InTurn t thread.stack

/-- Where a task stands, with what has been found of its producer and what its binding has done: both
come in one turn, the last. -/
inductive Account (client : Client M E K H) (t : Nat) (w : World M E K H) :
    List (Finding M K) → List (Act M E K) → Prop
  | before : (∀ task, w.tasks[t]? = some task → task.Pending) → w.Unattended t →
      Account client t w [] []
  | during {task : Task K} {thread : Thread M E K H} {found : List (Finding M K)}
      {acts : List (Act M E K)} : w.tasks[t]? = some task → task.Pending → thread ∈ w.threads →
      Tenure client t task found acts thread.control thread.stack →
      Account client t w found acts
  | after {task : Task K} {found : List (Finding M K)} {outcome : Outcome}
      {acts : List (Act M E K)} : w.tasks[t]? = some task → task.state = .over outcome →
      Settles client t task found outcome acts → w.Unattended t →
      Account client t w found acts

namespace World

theorem Begun.inTurn {u : Nat} (h : Begun client w u m) (hturn : InTurn t m.stack) : t = u := by
  have alone {stage : Stage K} (hstack : InTurn t ([.turn u stage] : List (Frame M E K H))) :
      t = u := by
    obtain ⟨other, hmem⟩ := hstack
    cases List.mem_singleton.mp hmem
    rfl
  cases h with
  | passes => exact absurd hturn not_inTurn_nil
  | starts => exact alone hturn
  | asks _ _ hasked =>
    cases hasked with
    | cancelled =>
      obtain ⟨stage, hmem⟩ := hturn
      rcases List.mem_cons.mp hmem with hacts | hmem
      · cases hacts
      · exact alone ⟨stage, hmem⟩
    | polls => exact alone hturn

theorem Begun.unsettled (h : Begun client w t m) (hm : m.stack ≠ []) :
    ∃ task, w.tasks[t]? = some task ∧ task.state.outcome? = none := by
  cases h with
  | passes => exact absurd rfl hm
  | starts ht hfresh => exact ⟨_, ht, by rw [hfresh]; rfl⟩
  | asks ht hparked => exact ⟨_, ht, by rw [hparked]; rfl⟩

/-- Between two steps the task is left alone, or it begins a turn. -/
theorem between_turn (hb : Between client w w') :
    (w'.tasks[t]? = w.tasks[t]? ∧
      ∀ thread ∈ w'.threads, InTurn t thread.stack → thread ∈ w.threads) ∨
    ∃ ready m, Begun client { w with ready } t m ∧ m.stack ≠ [] ∧ w.isIdle ∧
      w' = m.world.assign m.control m.stack := by
  cases hb with
  | code code =>
    left
    refine ⟨rfl, ?_⟩
    intro other hother hturn
    rcases mem_assign hother with hbefore | rfl
    · exact hbefore
    · exact absurd hturn not_inTurn_nil
  | @turn u ready hidle hready =>
    have hbegun : Begun client { w with ready } u ({ w with ready }.beginTurn client [] u) :=
      beginTurn_begun
    have hcalm : Calm { w with ready } ({ w with ready }.beginTurn client [] u).world :=
      beginTurn_calm
    have htasks : TurnsTasks w u ({ w with ready }.beginTurn client [] u).world := beginTurn_tasks
    generalize { w with ready }.beginTurn client [] u = m at *
    by_cases hown : u = t ∧ m.stack ≠ []
    · obtain ⟨rfl, hm⟩ := hown
      exact .inr ⟨ready, m, hbegun, hm, hidle, rfl⟩
    · left
      constructor
      · by_cases hm : m.stack = []
        · cases hbegun with
          | passes => rfl
          | starts => cases hm
          | asks _ _ hasked => cases hasked <;> cases hm
        · obtain ⟨change, htasks, -⟩ := htasks
          have hne : u ≠ t := fun hsame => hown ⟨hsame, hm⟩
          change m.world.tasks[t]? = _
          rw [htasks, List.getElem?_modify_ne _ _ hne]
      · intro other hother hturn
        rcases mem_assign hother with hbefore | rfl
        · exact hcalm.threads ▸ hbefore
        · refine absurd ⟨(hbegun.inTurn hturn).symm, ?_⟩ hown
          intro hnil
          exact not_inTurn_nil (hnil ▸ hturn)
  | clock time =>
    refine .inl ⟨congrArg (·[t]?) (tasks_advance time), ?_⟩
    intro other hother _
    exact (calm_advance time).threads ▸ hother
  | host change => exact .inl ⟨rfl, fun _ hother _ => hother⟩
  | reap => exact .inl ⟨rfl, fun _ hother _ => List.mem_of_mem_filter hother⟩

end World

/-- A step of a thread begins no turn. -/
theorem World.Unattended.of_step (h : w.Unattended t) (ho : w.Orderly) (hr : w.Rooted)
    (ht : w.thread? n = some thread) (hs : w.step client n = some w') :
    w'.Unattended t ∧ Moment.bindingAct? t ⟨w, thread⟩ = none := by
  obtain ⟨⟨m, -, stepped⟩, -⟩ := World.step_stepped ho ht hs
  have hmem := World.mem_of_thread? ht
  have hrooted := hr.last thread hmem
  refine ⟨?_, Moment.bindingAct?_eq_none (h thread hmem)⟩
  intro other hother hturn
  rcases stepped.succession.others_after hother with rfl | hbefore | hbare
  · exact h thread hmem ((stepped.stride.rooted hrooted).2 t hturn)
  · exact h other hbefore hturn
  · exact World.not_inTurn_nil (hbare.stack_eq ▸ hturn)

/-- A task for which nothing has been found or done is not over. -/
theorem Upshot.pending (h : Upshot client t task [] [] control stack) : task.Pending := by
  generalize hfindings : ([] : List (Finding M K)) = found at h
  generalize hacts : ([] : List (Act M E K)) = acts at h
  cases h with
  | goesOn hp => exact hp
  | waits hp => exact hp
  | ends _ hsettles =>
    subst hfindings hacts
    cases hsettles

namespace Account

/-- At most one thread is in the middle of turns. -/
theorem same_thread (ho : w.Orderly) (hr : w.Rooted) {first second : Thread M E K H} {u : Nat}
    (hf : first ∈ w.threads) (hs : second ∈ w.threads) (hft : InTurn t first.stack)
    (hst : InTurn u second.stack) : first = second :=
  ho.eq_of_id_eq hf hs ((hr.main first hf t hft).trans (hr.main second hs u hst).symm)

theorem of_upshot (ho : w.Orderly) (hr : w.Rooted) (hmem : thread ∈ w.threads)
    (hmain : thread.id = World.mainThread) (ht : w.tasks[t]? = some task)
    (h : Upshot client t task found acts thread.control thread.stack) :
    Account client t w found acts := by
  have unattended (hstack : thread.stack = []) : w.Unattended t := by
    intro other hother hturn
    obtain rfl := ho.eq_of_id_eq hother hmem ((hr.main other hother t hturn).trans hmain.symm)
    exact World.not_inTurn_nil (hstack ▸ hturn)
  generalize hcontrol : thread.control = control at h
  generalize hstack : thread.stack = stack at h
  cases h with
  | goesOn hp htenure => exact .during ht hp hmem (hcontrol ▸ hstack ▸ htenure)
  | waits hp =>
    refine .before ?_ (unattended hstack)
    intro other hother
    cases ht.symm.trans hother
    exact hp
  | ends hover hsettles => exact .after ht hover hsettles (unattended hstack)

/-- A step that is not one of the turn itself. -/
theorem of_step_away (h : Account client t w found acts) (hw : w.Settled)
    (ht : w.thread? n = some thread) (hs : w.step client n = some w')
    (ha : ¬AtTurn t thread.control thread.stack) :
    Account client t w' found (acts ++ (Moment.bindingAct? t ⟨w, thread⟩).toList) := by
  obtain rfl := World.id_of_thread? ht
  obtain ⟨⟨m, hm, stepped⟩, ho'⟩ := World.step_stepped hw.orderly ht hs
  have htasks := World.step_tasks hm ht hs
  have hchange : TaskChange w thread.control thread.stack w'.tasks := htasks ▸ World.move_tasks hm
  have hmem := World.mem_of_thread? ht
  have hrooted := hw.rooted.last thread hmem
  have hsuccession := stepped.succession
  cases h with
  | before hpending hnone =>
    obtain ⟨hnone', hact⟩ := hnone.of_step hw.orderly hw.rooted ht hs
    rw [hact]
    refine .before ?_ hnone'
    intro task' ht'
    cases hbefore : w.tasks[t]? with
    | some task =>
      obtain ⟨after, hafter, hchanges⟩ := hchange.get hbefore
      cases ht'.symm.trans hafter
      exact hchanges.pending ha (hpending task hbefore)
    | none =>
      obtain ⟨-, p, point, name, producer, config, sink, -, -, rfl⟩ := hchange.new hbefore ht'
      exact ⟨rfl, nofun⟩
  | @during task other _ _ htask hp hother htenure =>
    obtain ⟨task', htask', hchanges⟩ := hchange.get htask
    by_cases hsame : other = thread
    · subst hsame
      refine .during htask' (hchanges.pending ha hp) hsuccession.mem_after ?_
      have hwithin := htenure.within hrooted hm (hw.disciplined other hmem).stacked
        (hw.secure other hmem) ha
      exact hwithin.later hchanges.later
    · have hnot : ¬InTurn t thread.stack := by
        intro hturn
        exact hsame (same_thread hw.orderly hw.rooted hother hmem htenure.inTurn hturn)
      rw [Moment.bindingAct?_eq_none hnot, Option.toList_none, List.append_nil]
      refine .during htask' (hchanges.pending ha hp) ?_ (htenure.later hchanges.later)
      rcases hsuccession.others_before hother with heq | hafter | hbare
      · exact absurd heq hsame
      · exact hafter
      · exact absurd (hbare.stack_eq ▸ htenure.inTurn) World.not_inTurn_nil
  | after htask hover hsettles hnone =>
    obtain ⟨hnone', hact⟩ := hnone.of_step hw.orderly hw.rooted ht hs
    obtain ⟨task', htask', hchanges⟩ := hchange.get htask
    rw [hact, Option.toList_none, List.append_nil]
    exact .after htask' (hchanges.over ha hover) (hsettles.later hchanges.later) hnone'

theorem of_step (h : Account client t w found acts) (hw : w.Settled)
    (ht : w.thread? n = some thread) (hs : w.step client n = some w')
    (hr : thread.sinkPanics = false) (he : Moment.escapes t ⟨w, thread⟩ = false) :
    Account client t w' (found ++ (Moment.finding? t ⟨w, thread⟩).toList)
      (acts ++ (Moment.bindingAct? t ⟨w, thread⟩).toList) := by
  obtain rfl := World.id_of_thread? ht
  by_cases ha : AtTurn t thread.control thread.stack
  · have hmem := World.mem_of_thread? ht
    have hw' := hw.of_step ht hs hr
    cases h with
    | before _ hnone => exact absurd ha.inTurn (hnone thread hmem)
    | @during task other _ _ htask hp hother htenure =>
      obtain rfl := same_thread hw.orderly hw.rooted hother hmem htenure.inTurn ha.inTurn
      obtain ⟨⟨m, hm, stepped⟩, ho'⟩ := World.step_stepped hw.orderly ht hs
      obtain ⟨m', hm', threads, rfl⟩ := World.move_of_step ht hs
      cases hm.symm.trans hm'
      have hmain := hw.rooted.main other hmem t ha.inTurn
      obtain ⟨⟨stage, rest, hstack⟩, hreturn⟩ := ha
      obtain ⟨id, control, stack⟩ := other
      dsimp only at hstack hreturn htenure hm
      subst hstack
      obtain rfl : rest = [] := (hw.rooted.last _ hmem).1 rfl
      obtain ⟨task', htask', hupshot⟩ :=
        htenure.at_turn hreturn (World.turn_turned hm hreturn htask) htask hp he
      rw [Moment.finding?_turn htask, Moment.bindingAct?_of_return hreturn, Option.toList_none,
        List.append_nil]
      exact of_upshot ho' hw'.rooted stepped.succession.mem_after hmain htask' hupshot
    | after _ _ _ hnone => exact absurd ha.inTurn (hnone thread hmem)
  · rw [Moment.finding?_eq_none ha, Option.toList_none, List.append_nil]
    exact h.of_step_away hw ht hs ha

/-- Between two steps the task may begin a turn; else all stays as it is. -/
theorem of_between (h : Account client t w found acts) (hw : w.Settled)
    (hb : Between client w w') : Account client t w' found acts := by
  have hw' := hw.of_between hb
  rcases World.between_turn (t := t) hb with ⟨htask, hthreads⟩ | ⟨ready, m, hbegun, hm, hidle, rfl⟩
  · have unattended (hnone : w.Unattended t) : w'.Unattended t := by
      intro other hother hturn
      exact hnone other (hthreads other hother hturn) hturn
    cases h with
    | before hpending hnone => exact .before (fun task ht => hpending task (htask ▸ ht)) (unattended hnone)
    | during ht hp hmem htenure =>
      obtain ⟨hinterlude, ho'⟩ := World.between_interlude hw.orderly hb
      have hfound := World.keeps_of_interlude hinterlude ho' (hw.orderly.thread?_eq hmem)
        fun hnil => World.not_inTurn_nil (hnil ▸ htenure.inTurn)
      exact .during (htask ▸ ht) hp (World.mem_of_thread? hfound) htenure
    | after ht hover hsettles hnone => exact .after (htask ▸ ht) hover hsettles (unattended hnone)
  · obtain ⟨task, htask, hopen⟩ := hbegun.unsettled hm
    cases h with
    | before hpending hnone =>
      obtain ⟨task', htask', hupshot⟩ := hbegun.upshot hm htask (hpending task htask)
      cases hmain : m.world.thread? World.mainThread with
      | some main =>
        have hmem : ⟨World.mainThread, m.control, m.stack⟩ ∈ (m.world.assign m.control m.stack).threads := by
          apply List.mem_map.mpr
          refine ⟨main, World.mem_of_thread? hmain, ?_⟩
          simp [World.id_of_thread? hmain]
        exact of_upshot hw'.orderly hw'.rooted hmem rfl htask' hupshot
      | none =>
        refine .before ?_ ?_
        · intro other hother
          cases htask'.symm.trans hother
          exact hupshot.pending
        · intro other hother hturn
          have hid := hw'.rooted.main other hother t hturn
          obtain ⟨source, hsource, hsame⟩ := List.mem_map.mp hother
          refine List.find?_eq_none.mp hmain source hsource (decide_eq_true ?_)
          rw [← hid, ← hsame]
          split <;> rfl
    | during ht hp hmem htenure =>
      have hfound := hw.orderly.thread?_eq hmem
      rw [hw.rooted.main _ hmem t htenure.inTurn] at hfound
      have hover := hidle
      simp only [World.isIdle, hfound, Option.all_some] at hover
      exact absurd ((Thread.isBare_of_isOver hover).stack_eq ▸ htenure.inTurn) World.not_inTurn_nil
    | after ht hover =>
      cases htask.symm.trans ht
      rw [hover] at hopen
      cases hopen

/-- The account of a task that is over is a row. -/
theorem settles (h : Account client t w found acts) (ht : w.tasks[t]? = some task)
    {outcome : Outcome} (hover : task.state.outcome? = some outcome) :
    Settles client t task found outcome acts := by
  have unsettled (hopen : task.state.outcome? = none) : False := by
    rw [hover] at hopen
    cases hopen
  cases h with
  | before hpending => exact (unsettled (hpending task ht).unsettled).elim
  | during ht' hp =>
    cases ht.symm.trans ht'
    exact (unsettled hp.unsettled).elim
  | after ht' hover' hsettles =>
    cases ht.symm.trans ht'
    rw [hover'] at hover
    cases hover
    exact hsettles

theorem initial (host : H) : Account client t (.initial host) [] [] := by
  refine .before nofun ?_
  intro other hother
  rw [List.mem_singleton.mp hother]
  exact World.not_inTurn_nil

end Account

/-- What is found of the task's producer along a trail. -/
def findings (t : Nat) (trail : List (Moment M E K H)) : List (Finding M K) :=
  trail.filterMap (Moment.finding? t)

/-- What the task's binding does along a trail. -/
def bindingActs (t : Nat) (trail : List (Moment M E K H)) : List (Act M E K) :=
  trail.filterMap (Moment.bindingAct? t)

theorem findings_append (t : Nat) (first second : List (Moment M E K H)) :
    findings t (first ++ second) = findings t first ++ findings t second := List.filterMap_append

theorem bindingActs_append (t : Nat) (first second : List (Moment M E K H)) :
    bindingActs t (first ++ second) = bindingActs t first ++ bindingActs t second := List.filterMap_append

section
variable (t : Nat) (trail : List (Moment M E K H)) (moment : Moment M E K H)

theorem findings_snoc :
    findings t (trail ++ [moment]) = findings t trail ++ (moment.finding? t).toList := by
  rw [findings, List.filterMap_append]
  cases h : moment.finding? t <;> simp [findings, h]

theorem bindingActs_snoc :
    bindingActs t (trail ++ [moment]) = bindingActs t trail ++ (moment.bindingAct? t).toList := by
  rw [bindingActs, List.filterMap_append]
  cases h : moment.bindingAct? t <;> simp [bindingActs, h]

end

/-- The account of a task is kept along a run from where nothing has been found or done. -/
theorem Run.accounts {u : World M E K H} {trail : List (Moment M E K H)} (run : Run client u trail w)
    (hu : u.Settled) (hbegin : Account client t u [] []) (hs : SinksReturn trail)
    (he : ∀ m ∈ trail, m.escapes t = false) :
    Account client t w (findings t trail) (bindingActs t trail) := by
  induction run with
  | refl => exact hbegin
  | @step trail w w' n thread before ht hstep ih =>
    obtain ⟨hs, hlast⟩ := sinksReturn_append.mp hs
    have hw : w.Settled := before.settled hu hs
    have haccount := (ih hs fun m hm => he m (List.mem_append_left _ hm)).of_step hw ht hstep
      (hlast _ List.mem_cons_self) (he _ (List.mem_append_right _ List.mem_cons_self))
    rw [findings_snoc, bindingActs_snoc]
    exact haccount
  | between before hb ih =>
    exact (ih hs he).of_between (before.settled hu hs) hb

theorem Run.account {host : H} {trail : List (Moment M E K H)}
    (run : Run client (.initial host) trail w) (hs : SinksReturn trail)
    (he : ∀ m ∈ trail, m.escapes t = false) :
    Account client t w (findings t trail) (bindingActs t trail) :=
  run.accounts (World.initial_settled host) (.initial host) hs he

/-- In every run whose sinks return normally, by the time a task is over from whose turn no panic has
escaped, its binding has done what the outcome asks for, in order and nothing else, and the outcome is
the one that follows from what was found of the producer. -/
theorem bindings_settle {host : H} {trail : List (Moment M E K H)}
    (run : Run client (.initial host) trail w) (hs : SinksReturn trail)
    (he : ∀ m ∈ trail, m.escapes t = false) (ht : w.tasks[t]? = some task) {outcome : Outcome}
    (hover : task.state.outcome? = some outcome) :
    Settles client t task (findings t trail) outcome (bindingActs t trail) := by
  generalize hf : findings t trail = found
  generalize ha : bindingActs t trail = done
  have haccount := run.account hs he
  rw [hf, ha] at haccount
  cases haccount with
  | before hpending =>
    have hopen := (hpending task ht).unsettled
    rw [hover] at hopen
    cases hopen
  | during ht' hp =>
    cases ht.symm.trans ht'
    have hopen := hp.unsettled
    rw [hover] at hopen
    cases hopen
  | after ht' hover' hsettles =>
    cases ht.symm.trans ht'
    rw [hover'] at hover
    cases hover
    exact hsettles

/-- A client whose producers fail with a failure that its code can render. -/
def rejectingClient : Client Unit Unit Bool Unit :=
  { plainClient with
    poll := fun _ _ => .ret (.done (.error (.render ⟨"rejected", true⟩)))
    render := fun _ => .ret (.ok (some ())) }

theorem bindings_settle_rejecting :
    let bound := World.runCalls rejectingClient () [.create "request" .recorder,
      .register 0 .active true, .bind 0 "producer" true {} none] 40
    ∃ task failure, bindingActs 0 (bound.1 ++ (bound.2.turnTrace rejectingClient 60).1) =
      [Task.announcement task failure, task.answer ()] := by
  intro bound
  have run : Run rejectingClient (.initial ()) (bound.1 ++ (bound.2.turnTrace rejectingClient 60).1)
      (bound.2.turnTrace rejectingClient 60).2 :=
    (World.run_runCalls rejectingClient () _ 40).trans (World.run_turnTrace rejectingClient 60 (by decide))
  have hrendered : ((bound.2.turnTrace rejectingClient 60).2.tasks[0]?.bind fun task =>
      task.state.outcome?) = some .rendered := by decide
  obtain ⟨task, ht, hover⟩ := Option.bind_eq_some_iff.mp hrendered
  have hsettles := bindings_settle run (by decide) (by decide) ht hover
  generalize findings 0 _ = found at hsettles
  generalize bindingActs 0 _ = done at hsettles ⊢
  cases hsettles with
  | rendered failure response => exact ⟨task, failure, rfl⟩

end Exchange
