import Exchange.Proofs.Endings
import Exchange.Proofs.Hands
import Exchange.Proofs.Decline

/-!
What is said of a failure. Behind a failure stand its causes, one behind the other: they are met by asking
each for its source, as long as it has one. The explanation of the failure, and the report that the binding
makes of it, give the texts of all of them in that order.
-/

namespace Exchange
set_option autoImplicit false

variable {M E K H : Type} {client : Client M E K H} {w start : World M E K H} {t n : Nat}
  {thread : Thread M E K H}
variable {cause : Cause K} {causes : List (Cause K)} {trail : List (Moment M E K H)}

/-! ## Sources -/

/-- What stands right behind a failure. -/
def ProducerFailure.source? : ProducerFailure K → Option (Cause K)
  | .fail cause => some cause
  | _ => none

/-- What stands right behind a cause. -/
def Cause.source? : Cause K → Option (Cause K)
  | .produce error => error.source?
  | .wrapped _ source => some source
  | _ => none

/-- What is met by going on from source to source. -/
inductive Sources : Option (Cause K) → List (Cause K) → Prop
  | none : Sources none []
  | some {cause : Cause K} {behind : List (Cause K)} : Sources cause.source? behind →
      Sources (some cause) (cause :: behind)

theorem Sources.unique {first : Option (Cause K)} {causes' : List (Cause K)} (h : Sources first causes)
    (h' : Sources first causes') : causes = causes' := by
  induction h generalizing causes' with
  | none =>
    cases h'
    rfl
  | some _ ih =>
    cases h' with
    | some hbehind => rw [ih hbehind]

/-- The trail of a cause is met on the way, and it comes to an end. -/
theorem Cause.sources_trail (cause : Cause K) : Sources (some cause) cause.trail := by
  fun_induction Cause.trail cause with
  | case1 inner ih => exact .some ih
  | case2 message inner ih => exact .some ih
  | case3 cause hfail hwrapped =>
    have hnone : cause.source? = none := by
      cases cause with
      | produce error =>
        cases error with
        | fail inner => exact absurd rfl (hfail inner)
        | _ => rfl
      | wrapped message inner => exact absurd rfl (hwrapped message inner)
      | _ => rfl
    exact .some (hnone ▸ .none)

theorem Cause.trail_ne_nil (cause : Cause K) : cause.trail ≠ [] := by
  intro hnil
  have h := cause.sources_trail
  rw [hnil] at h
  cases h

/-- The explanation is made of the texts on the trail. -/
theorem Cause.explanation_eq (cause : Cause K) :
    cause.explanation = ": ".intercalate (cause.trail.map Cause.message) := by
  have joined (text : String) (inner : Cause K) :
      ": ".intercalate (text :: inner.trail.map Cause.message) =
        text ++ ": " ++ ": ".intercalate (inner.trail.map Cause.message) :=
    String.intercalate_cons_of_ne_nil (by simp [inner.trail_ne_nil])
  fun_induction Cause.explanation cause with
  | case1 inner ih =>
    rw [trail, List.map_cons, joined, ← ih]
    rfl
  | case2 message inner ih =>
    rw [trail, List.map_cons, joined, ← ih]
    rfl
  | case3 cause hfail hwrapped =>
    rw [trail, List.map_singleton, String.intercalate_singleton]
    · exact hfail
    · exact hwrapped

/-! ## Failures wrapped in failures -/

/-- A text wrapped so many times as the cause of a failure. -/
def Cause.wrap (text : String) : Nat → Cause K
  | 0 => .text text
  | depth + 1 => .produce (.fail (wrap text depth))

/-- So many announcements of a failure before the text. -/
def prefixed (text : String) (depth : Nat) : String :=
  String.join (List.replicate depth "producer failed: ") ++ text

theorem Cause.message_wrap (text : String) (depth : Nat) :
    (wrap text depth : Cause K).message = prefixed text depth := by
  induction depth with
  | zero => exact (String.empty_append).symm
  | succ depth ih =>
    rw [prefixed, List.replicate_succ, String.join_cons, String.append_assoc, ← prefixed, ← ih]
    rfl

theorem Cause.trail_wrap (text : String) (depth : Nat) :
    (wrap text depth : Cause K).trail.map message =
      (List.range (depth + 1)).reverse.map (prefixed text) := by
  induction depth with
  | zero => exact congrArg ([·]) (message_wrap text 0)
  | succ depth ih =>
    rw [List.range_succ, List.reverse_append, List.reverse_singleton, List.singleton_append,
      List.map_cons, ← ih, ← message_wrap text (depth + 1)]
    rfl

/-! ## The report -/

/-- A thread that is in the middle of something goes on with that, if it goes on. -/
theorem Run.goes_on (run : Run client start trail w) (ho : start.Orderly)
    (ht : start.thread? n = some thread) (hstack : thread.stack ≠ []) :
    trail.filter (·.thread.id = n) = [] ∨ ∃ first m second, trail = first ++ m :: second ∧
      first.filter (·.thread.id = n) = [] ∧ m.thread = thread := by
  rcases (run.next_moment ho ht hstack).2 with ⟨-, hnone⟩ | ⟨next, hfind, hnext⟩
  · exact .inl (List.filter_eq_nil_iff.mpr (List.find?_eq_none.mp hnone))
  · obtain ⟨-, first, second, heq, hfirst⟩ := List.find?_eq_some_iff_append.mp hfind
    refine .inr ⟨first, next, second, heq, ?_, hnext⟩
    apply List.filter_eq_nil_iff.mpr
    intro m hm
    simpa using hfirst m hm

/-- A producer's failure that nothing renders is reported with the explanation of its cause, by the step
after the next of the thread to which it comes back. -/
theorem Run.failure_is_reported {host : H} {task : Task K} {before after : List (Moment M E K H)}
    {m report : Moment M E K H} {rest : List (Frame M E K H)} (run : Run client (.initial host) trail w)
    (heq : trail = before ++ m :: after)
    (hcontrol : m.thread.control = .resume (.progress (.done (.error (.fail cause)))))
    (htop : m.thread.stack = .turn t .polling :: rest) (htask : m.world.tasks[t]? = some task)
    (hreport : (after.filter (·.thread.id = m.thread.id))[1]? = some report) :
    report.diagnosis? = some (task.sink,
      ⟨.producerFailed, some task.name, some cause.explanation, report.world.nextSeq⟩) := by
  obtain ⟨u, ⟨n, control, stack⟩⟩ := m
  obtain rfl : control = .resume (.progress (.done (.error (.fail cause)))) := hcontrol
  obtain rfl : stack = .turn t .polling :: rest := htop
  obtain ⟨hbefore, n', v, ht, hstep, hafter⟩ := run.split heq
  obtain rfl : n = n' := World.id_of_thread? ht
  have hu := hbefore.placed
  let due : Act M E K := task.report .producerFailed (some cause.explanation)
  let answer : Act M E K := task.answer client.internalError
  let paying : List (Frame M E K H) := .turn t (.closing .failed) :: rest
  -- the binding has the report to make, and then its answer
  have hcloses : v.thread? n = some ⟨n, .resume .done, .acts task.point [due, answer] .done :: paying⟩ := by
    obtain ⟨m, hm, hv⟩ := World.thread?_of_step hu.orderly ht hstep
    simp only [World.move, World.resume, htask] at hm
    cases hm
    exact hv
  have hbegun := hbefore.step ht hstep
  rcases hafter.goes_on hbegun.placed.orderly hcloses (by simp) with
    hnone | ⟨first, m₁, second, rfl, hfirst, hm₁⟩
  · rw [hnone] at hreport
    cases hreport
  obtain ⟨hto, n₁, v₁, ht₁, hstep₁, hlater⟩ := hafter.split rfl
  obtain rfl : n = n₁ := by rw [← World.id_of_thread? ht₁, hm₁]
  have hto := hbegun.trans hto
  have hreports : v₁.thread? n = some ⟨n, .act due, .acts task.point [answer] .done :: paying⟩ := by
    obtain ⟨m, hm, hv₁⟩ := World.thread?_of_step hto.placed.orderly ht₁ hstep₁
    rw [hm₁] at hm
    cases hm
    exact hv₁
  have hown : (first ++ m₁ :: second).filter (·.thread.id = n) = m₁ :: second.filter (·.thread.id = n) := by
    simp [List.filter_append, hfirst, hm₁]
  rw [hown, List.getElem?_cons_succ] at hreport
  rcases hlater.goes_on (hto.step ht₁ hstep₁).placed.orderly hreports (by simp) with
    hnone | ⟨between, m₂, third, rfl, hbetween, hm₂⟩
  · rw [hnone] at hreport
    cases hreport
  · obtain rfl : m₂ = report := by simpa [List.filter_append, hbetween, hm₂] using hreport
    simp [Moment.diagnosis?, hm₂, due, Task.report]

/-- Nothing keeps that thread from making the report. -/
theorem World.failure_can_be_reported {task : Task K} {m : Moment M E K H} {rest : List (Frame M E K H)}
    (ht : m.world.thread? m.thread.id = some m.thread)
    (hcontrol : m.thread.control = .resume (.progress (.done (.error (.fail cause)))))
    (htop : m.thread.stack = .turn t .polling :: rest) (htask : m.world.tasks[t]? = some task) :
    ∃ first report v, Run client m.world [m, first, report] v ∧
      first.thread.id = m.thread.id ∧ report.thread.id = m.thread.id := by
  obtain ⟨u, ⟨n, control, stack⟩⟩ := m
  obtain rfl : control = .resume (.progress (.done (.error (.fail cause)))) := hcontrol
  obtain rfl : stack = .turn t .polling :: rest := htop
  let due : Act M E K := task.report .producerFailed (some cause.explanation)
  let answer : Act M E K := task.answer client.internalError
  let paying : List (Frame M E K H) := .turn t (.closing .failed) :: rest
  let owes := u.put n (.resume .done) (.acts task.point [due, answer] .done :: paying)
  let reports := owes.put n (.act due) (.acts task.point [answer] .done :: paying)
  have htask : u.tasks[t]? = some task := htask
  have hcloses : u.step client n = some owes := by
    have hm : u.move client n (.turn t .polling :: rest)
        (.resume (.progress (.done (.error (.fail cause))))) = some
        ⟨u, .resume .done, .acts task.point [due, answer] .done :: paying⟩ := by
      simp only [move, resume, htask]
      rfl
    exact step_of_move ht hm
  have howes : owes.thread? n = some _ := thread?_put (Option.isSome_of_eq_some ht)
  have hgoes : owes.step client n = some reports := step_of_move howes rfl
  have hreports : reports.thread? n = some _ := thread?_put (Option.isSome_of_eq_some howes)
  exact ⟨_, _, _, ((Run.refl.step ht hcloses).step howes hgoes).step hreports (step_of_move hreports rfl),
    rfl, rfl⟩

/-- A failure with a cause has one row of causes behind it, met by going on from source to source. Its
explanation gives the text of each of them in order; so does the report that the binding makes of it as soon
as its producer has come to it, whatever happens on other threads in the meantime; and of a text that is
wrapped in failures there is one text for each depth. -/
theorem failures_explain_their_causes (cause : Cause K) :
    ∃ causes, (∀ others, Sources (ProducerFailure.fail cause).source? others ↔ others = causes) ∧
      (ProducerFailure.fail cause).sources = causes ∧
      (ProducerFailure.fail cause).explanation =
        "error: " ++ ": ".intercalate (causes.map Cause.message) ∧
      (∀ (client : Client M E K H) host before m t rest task, Run client (.initial host) before m.world →
        m.world.thread? m.thread.id = some m.thread →
        m.thread.control = .resume (.progress (.done (.error (.fail cause)))) →
        m.thread.stack = .turn t .polling :: rest → m.world.tasks[t]? = some task →
        (∃ first report v, Run client m.world [m, first, report] v ∧
          first.thread.id = m.thread.id ∧ report.thread.id = m.thread.id) ∧
        ∀ after w report, Run client m.world (m :: after) w →
          (after.filter (·.thread.id = m.thread.id))[1]? = some report →
          report.diagnosis? = some (task.sink, ⟨.producerFailed, some task.name,
            some (": ".intercalate (causes.map Cause.message)), report.world.nextSeq⟩)) ∧
      ∀ text depth, cause = .wrap text depth →
        causes.map Cause.message = (List.range (depth + 1)).reverse.map (prefixed text) := by
  refine ⟨cause.trail, ?_, rfl, ?_, ?_, ?_⟩
  · intro others
    constructor
    · intro h
      exact h.unique cause.sources_trail
    · rintro rfl
      exact cause.sources_trail
  · rw [← cause.explanation_eq]
    rfl
  · intro client host before m t rest task run ht hcontrol htop htask
    refine ⟨World.failure_can_be_reported ht hcontrol htop htask, ?_⟩
    intro after w report hafter hreport
    rw [← cause.explanation_eq]
    exact (run.trans hafter).failure_is_reported rfl hcontrol htop htask hreport
  · rintro text depth rfl
    exact Cause.trail_wrap text depth

/-- A client whose producers fail with a failure wrapped in a failure. -/
def nestingClient : Client Unit Unit Bool Unit :=
  { plainClient with poll := fun _ _ => .ret (.done (.error (.fail (.wrap "down" 1)))) }

theorem failures_explain_their_causes_nesting :
    let bound := World.runCalls nestingClient () [.create "request" .recorder,
      .register 0 .active true, .bind 0 "producer" true {} none] 40
    ∃ report ∈ (bound.2.turnTrace nestingClient 60).1, report.diagnosis? = some (.recorder,
      ⟨.producerFailed, some "producer", some "producer failed: down: down", 0⟩) := by
  intro bound
  have run : Run nestingClient (.initial ()) (bound.1 ++ (bound.2.turnTrace nestingClient 60).1)
      (bound.2.turnTrace nestingClient 60).2 :=
    (World.run_runCalls nestingClient () _ 40).trans (World.run_turnTrace nestingClient 60 (by decide))
  obtain ⟨causes, -, -, -, hreports, htexts⟩ :=
    failures_explain_their_causes (M := Unit) (E := Unit) (H := Unit) (.wrap "down" 1 : Cause Bool)
  have htexts : causes.map Cause.message = ["producer failed: down", "down"] := htexts "down" 1 rfl
  let turn := (bound.2.turnTrace nestingClient 60).1
  have hlength : 3 < turn.length := by decide
  have hparts : bound.1 ++ turn = bound.1 ++ turn.take 3 ++ turn[3] :: turn.drop 4 := by
    rw [List.append_assoc, List.getElem_cons_drop, List.take_append_drop]
  obtain ⟨before, n, v, ht, hstep, after⟩ := run.split hparts
  obtain rfl : turn[3].thread.id = n := World.id_of_thread? ht
  have htop : turn[3].thread.stack = [.turn 0 .polling] := rfl
  have hcontrol : turn[3].thread.control =
      .resume (.progress (.done (.error (.fail (.wrap "down" 1))))) := rfl
  have htask : turn[3].world.tasks[0]?.map (fun task => (task.name, task.sink)) =
      some ("producer", .recorder) := rfl
  obtain ⟨task, htask, hnamed⟩ := Option.map_eq_some_iff.mp htask
  obtain ⟨hname, hsink⟩ := Prod.mk.inj hnamed
  obtain ⟨-, hreport⟩ := hreports nestingClient () _ turn[3] 0 _ _ before ht hcontrol htop htask
  have hid : turn[3].thread.id = World.mainThread := rfl
  rw [hid] at hreport
  have hsecond : ((turn.drop 4).filter (·.thread.id = World.mainThread))[1]?.map
      (fun report => report.world.nextSeq) = some 0 := by decide
  obtain ⟨report, hsecond, hseq⟩ := Option.map_eq_some_iff.mp hsecond
  have hdiagnosis := hreport _ _ report ((Run.refl.step ht hstep).trans after) hsecond
  rw [htexts, hname, hsink, hseq] at hdiagnosis
  have hmem : report ∈ turn.drop 4 := List.mem_of_mem_filter (List.mem_of_getElem? hsecond)
  exact ⟨report, List.mem_of_mem_drop hmem, hdiagnosis⟩

end Exchange
