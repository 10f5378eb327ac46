import Exchange.Proofs.Addresses

/-!
The numbers of diagnostics. Every diagnostic takes the next number when it is created, and the thread that has
created it hands it to its sink before it does anything else; so what is handed over on one thread is handed
over once and in the order of the numbers, whatever the sink and the callbacks report in the meantime.
-/

namespace Exchange
set_option autoImplicit false

variable {M E K H : Type} {client : Client M E K H} {w w' : World M E K H} {t n p : Nat}
  {thread : Thread M E K H}
variable {control : Control M E K H} {stack : List (Frame M E K H)} {m : Move M E K H}
variable {trail : List (Moment M E K H)} {host : H}

/-! ## Creation -/

/-- The diagnostic that the step creates: one that is to be reported, or a set's own about the panic of one
of its members. -/
def Moment.creation? (m : Moment M E K H) : Option Diagnostic :=
  match m.thread.control, m.thread.stack with
  | .act (.report _ kind label reason), _ => some ⟨kind, label, reason, m.world.nextSeq⟩
  | .unwind payload, .fanOut members _ next diagnostic :: _ =>
    if diagnostic.kind = .sinkPanicked then none
    else some ⟨.sinkPanicked, some ((members[next - 1]?.map Sink.name).getD ""), some payload.info,
      m.world.nextSeq⟩
  | _, _ => none

def created (trail : List (Moment M E K H)) : List Diagnostic := trail.filterMap Moment.creation?

theorem Moment.seq_of_creation {m : Moment M E K H} {diagnostic : Diagnostic}
    (h : m.creation? = some diagnostic) : diagnostic.seq = m.world.nextSeq := by
  unfold creation? at h
  repeat' split at h
  all_goals cases h
  all_goals rfl

namespace World
variable {point : Point M E K}

@[simp] theorem nextSeq_setPhase (phase : Phase M E K) : (w.setPhase p phase).nextSeq = w.nextSeq := rfl

@[simp] theorem nextSeq_modifyTask (change : Task K → Task K) :
    (w.modifyTask t change).nextSeq = w.nextSeq := rfl

@[simp] theorem nextSeq_wake : (w.wake t).nextSeq = w.nextSeq := by
  unfold wake
  split <;> rfl

@[simp] theorem nextSeq_cancel : (w.cancel t).nextSeq = w.nextSeq := by
  unfold cancel
  split
  · split <;> simp
  · rfl

theorem nextSeq_perform {op : Op M E K} (hm : w.perform client n stack op = some m) :
    m.world.nextSeq = w.nextSeq := by
  cases op <;> simp only [perform, register, unregister, atEnd, push, poke, bind] at hm
  all_goals repeat' split at hm
  all_goals cases hm
  all_goals simp [Move.answer, Move.acts, Move.serve]

theorem nextSeq_ask (task : Task K) (producer : K) :
    (w.ask client stack t task producer).world.nextSeq = w.nextSeq := by
  unfold ask
  split <;> rfl

theorem nextSeq_resumeTurn (task : Task K) (stage : Stage K) (reply : Reply M K) :
    (w.resumeTurn client stack t task stage reply).world.nextSeq = w.nextSeq := by
  unfold resumeTurn park
  repeat' split
  all_goals first | exact nextSeq_ask _ _ | rfl | skip
  all_goals simp [Move.answer]

theorem nextSeq_unwindTurn (task : Task K) (stage : Stage K) (payload : Payload) :
    (w.unwindTurn client stack t task stage payload).world.nextSeq = w.nextSeq := by
  unfold unwindTurn
  split <;> rfl

theorem nextSeq_serve : (w.serve n stack p point).world.nextSeq = w.nextSeq := by
  unfold serve
  dsimp only
  repeat' split
  all_goals rfl

theorem nextSeq_resume (frame : Frame M E K H) (reply : Reply M K) :
    (w.resume client n stack reply frame).world.nextSeq = w.nextSeq := by
  cases frame <;> simp only [resume]
  all_goals repeat' split
  all_goals first | exact nextSeq_serve | exact nextSeq_resumeTurn _ _ _ | rfl

/-- A step creates one diagnostic at most, and that one takes the next number. -/
theorem nextSeq_move (hm : w.move client n stack control = some m) :
    m.world.nextSeq =
      w.nextSeq + (Moment.creation? ⟨w, ⟨t, control, stack⟩⟩).toList.length := by
  cases control with
  | eval code =>
    cases hm
    cases code <;> rfl
  | perform op => exact nextSeq_perform hm
  | act act =>
    cases hm
    cases act with
    | notify ticket notice => cases notice <;> simp [World.act, Move.answer, Moment.creation?]
    | cancel u => simp [World.act, Move.answer, Moment.creation?]
    | _ => rfl
  | deliver sink diagnostic =>
    cases hm
    cases sink <;> rfl
  | resume reply =>
    cases stack with
    | nil => cases hm
    | cons frame rest =>
      cases hm
      exact nextSeq_resume frame reply
  | unwind payload =>
    cases stack with
    | nil => cases hm
    | cons frame rest =>
      cases hm
      cases frame with
      | fanOut members skip next diagnostic =>
        simp only [unwind, Moment.creation?]
        split <;> rfl
      | turn u stage =>
        simp only [unwind]
        split
        · exact nextSeq_unwindTurn _ _ _
        · rfl
      | delivering q =>
        simp only [unwind]
        split <;> rfl
      | _ => rfl
  | await child =>
    simp only [move] at hm
    repeat' split at hm
    all_goals cases hm
    all_goals rfl

theorem nextSeq_beginTurn : (w.beginTurn client stack t).world.nextSeq = w.nextSeq := by
  unfold beginTurn
  repeat' split
  all_goals first | exact nextSeq_ask _ _ | rfl

theorem nextSeq_advance (time : Nat) : (w.advance time).nextSeq = w.nextSeq := by
  have wakes (due : List Nat) (v : World M E K H) :
      (due.foldl (fun w t => w.wake t) v).nextSeq = v.nextSeq := by
    induction due generalizing v with
    | nil => rfl
    | cons t due ih => exact (ih (v.wake t)).trans nextSeq_wake
  exact wakes _ { w with clock := max w.clock time }

theorem nextSeq_between (hb : Between client w w') : w'.nextSeq = w.nextSeq := by
  cases hb with
  | turn => exact nextSeq_beginTurn
  | clock time => exact nextSeq_advance time
  | _ => rfl

end World

/-- Diagnostics are numbered from nought in the order of their creation. -/
theorem Run.created_numbers (run : Run client (.initial host) trail w) :
    (created trail).map (·.seq) = List.range w.nextSeq := by
  induction run with
  | refl => rfl
  | @step trail w w' t thread _ ht hs ih =>
    obtain ⟨m, hm, threads, rfl⟩ := World.move_of_step ht hs
    have hnext : m.world.nextSeq = w.nextSeq + (Moment.creation? ⟨w, thread⟩).toList.length :=
      World.nextSeq_move hm
    rw [created, List.filterMap_append, List.map_append, ← created, ih]
    change _ = List.range m.world.nextSeq
    rw [hnext]
    cases hcreation : Moment.creation? ⟨w, thread⟩ with
    | none => simp [hcreation]
    | some diagnostic =>
      have hseq := Moment.seq_of_creation hcreation
      simp [hcreation, hseq, List.range_succ]
  | between _ hb ih => rw [ih, World.nextSeq_between hb]

/-! ## Order -/

theorem Moment.creation?_of_diagnosis {m : Moment M E K H} {sink : Sink K} {diagnostic : Diagnostic}
    (h : m.diagnosis? = some (sink, diagnostic)) : m.creation? = some diagnostic := by
  unfold diagnosis? at h
  split at h
  · rename_i hcontrol
    cases h
    simp [creation?, hcontrol]
  · cases h

/-- What is reported is created in that order. -/
theorem diagnoses_created (trail : List (Moment M E K H)) :
    ((diagnoses trail).map (·.2)).Sublist (created trail) := by
  induction trail with
  | nil => exact .slnil
  | cons m trail ih =>
    rw [diagnoses, created, ← List.singleton_append, List.filterMap_append, List.filterMap_append,
      List.map_append]
    apply List.Sublist.append _ ih
    cases hreport : m.diagnosis? with
    | none => simp [hreport]
    | some diagnosis => simp [hreport, Moment.creation?_of_diagnosis hreport]

theorem Run.reports_in_order (run : Run client (.initial host) trail w) :
    (diagnoses trail).Pairwise fun first second => first.2.seq < second.2.seq := by
  have hrange : ((created trail).map (·.seq)).Pairwise (· < ·) := by
    rw [run.created_numbers]
    exact List.pairwise_lt_range
  have hreports := hrange.sublist ((diagnoses_created trail).map (·.seq))
  rw [List.map_map, List.pairwise_map] at hreports
  exact hreports

theorem World.inHand?_of_isIdle (h : w.isIdle) : w.inHand? World.mainThread = none := by
  unfold inHand?
  cases hthread : w.thread? mainThread with
  | none => rfl
  | some thread =>
    have hover : thread.isOver := by simpa [isIdle, hthread] using h
    apply Thread.inHand?_eq_none
    intro sink diagnostic hcontrol
    unfold Thread.isOver at hover
    split at hover <;> simp_all

/-- Diagnostics are numbered from nought in the order in which they are created, those of sets and of the
client's own included. Each one that is reported is created then, on behalf of a point or of a binding for
the sink that is attached to it. As long as there is only one thread, sinks are handed what is reported to
them in the order of the numbers and each diagnostic once, however calls, callbacks and sinks are nested in
each other and whatever panics; at most the last one is still to be handed over, and none between calls. -/
theorem diagnostics_are_numbered_in_order (run : Run client (.initial host) trail w) :
    (created trail).map (·.seq) = List.range w.nextSeq ∧
    (∀ m ∈ trail, ∀ sink diagnostic, m.diagnosis? = some (sink, diagnostic) →
      m.creation? = some diagnostic ∧
      ∀ author, author? m.thread.stack = some author → w.sinkOf? author = some sink) ∧
    ((∀ m ∈ trail, m.thread.id = World.mainThread) →
      diagnoses trail = handed trail ++ (w.inHand? World.mainThread).toList ∧
      (handed trail).Pairwise (fun first second => first.2.seq < second.2.seq) ∧
      (w.isIdle → handed trail = diagnoses trail)) := by
  refine ⟨run.created_numbers, ?_, ?_⟩
  · intro m hmem sink diagnostic hreport
    exact ⟨Moment.creation?_of_diagnosis hreport, fun author => run.reports_to_sink hmem hreport⟩
  · intro halone
    have hands := run.hands_over World.mainThread
    rw [List.filter_eq_self.mpr (by simpa using halone)] at hands
    have horder := run.reports_in_order
    rw [hands] at horder
    refine ⟨hands, (List.pairwise_append.mp horder).1, ?_⟩
    intro hidle
    rw [hands, World.inHand?_of_isIdle hidle]
    exact (List.append_nil _).symm

/-- A client whose sinks report to the first point themselves when they hear of a poke, or panic. -/
def talkativeClient : Client Unit Unit Bool Unit :=
  { plainClient with
    sink := fun steady diagnostic =>
      if !steady then .panic .other
      else if diagnostic.kind = .pokeUnsupported then .call (.emit 0 .lateEvent none none) fun _ => .ret ()
      else .ret () }

theorem diagnostics_are_numbered_in_order_nested :
    let calls := World.runCalls talkativeClient () [.create "request" (.client "log" true), .poke 0,
      .report (.set [.client "fragile" false, .recorder]) .lateRegistration none none, .poke 0] 100
    (handed calls.1).map (·.2.seq) = [0, 1, 2, 4, 5] ∧ (created calls.1).map (·.seq) = List.range 6 ∧
      (handed calls.1).Pairwise (fun first second => first.2.seq < second.2.seq) ∧
      handed calls.1 = diagnoses calls.1 := by
  intro calls
  have run : Run talkativeClient (.initial ()) calls.1 calls.2 := World.run_runCalls _ _ _ _
  obtain ⟨hnumbers, -, hhands⟩ := diagnostics_are_numbered_in_order run
  obtain ⟨-, horder, hall⟩ := hhands (by decide)
  exact ⟨by decide, hnumbers, horder, hall rfl⟩

end Exchange
