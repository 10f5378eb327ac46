import Exchange.Proofs.Relaying

/-!
Sets of sinks. A set hands a diagnostic to its members one after the other. When one of them panics it tells
the others of that, one after the other, before it goes on; of panics on the way of such a report it tells
nobody. Nothing of this gets out of the set, so a member that is a set itself has no panics.
-/

namespace Exchange
set_option autoImplicit false

variable {M E K H : Type} {client : Client M E K H} {start w : World M E K H} {n : Nat}
variable {control : Control M E K H} {stack below : List (Frame M E K H)}
variable {members : List (Sink K)} {sink : Sink K} {diagnostic : Diagnostic}

/-! ## Coming back -/

/-- On its own the thread gets to the frames `stack'`, in one of the ways in question. -/
def Reaches (client : Client M E K H) (n : Nat) (start : World M E K H) (control : Control M E K H)
    (stack : List (Frame M E K H)) (arrives : Control M E K H → Prop) (stack' : List (Frame M E K H)) :
    Prop :=
  ∀ trail v, Run client start trail v → v.thread? n = some ⟨n, control, stack⟩ →
    ∃ own w control', Run client v own w ∧ (∀ m ∈ own, m.thread.id = n) ∧
      w.thread? n = some ⟨n, control', stack'⟩ ∧ arrives control'

namespace Reaches
variable {arrives arrives' : Control M E K H → Prop} {stack' stack'' : List (Frame M E K H)}

theorem refl (h : arrives control) : Reaches client n start control stack arrives stack :=
  fun _ v _ hthread => ⟨[], v, control, .refl, by simp, hthread, h⟩

theorem trans (h : Reaches client n start control stack arrives stack')
    (h' : ∀ control', arrives control' → Reaches client n start control' stack' arrives' stack'') :
    Reaches client n start control stack arrives' stack'' := by
  intro trail v run hthread
  obtain ⟨own, w, control', hrun, hown, hthread', harrives⟩ := h trail v run hthread
  obtain ⟨own', w', control'', hrun', hown', hthread'', harrives'⟩ :=
    h' control' harrives _ w (run.trans hrun) hthread'
  refine ⟨own ++ own', w', control'', hrun.trans hrun', ?_, hthread'', harrives'⟩
  intro m hm
  rcases List.mem_append.mp hm with hm | hm
  · exact hown m hm
  · exact hown' m hm

/-- One step, and then the rest of the way. -/
theorem cons (hstart : start.Placed)
    (h : ∀ v : World M E K H, ∃ m, v.move client n stack control = some m ∧
      Reaches client n start m.control m.stack arrives stack') :
    Reaches client n start control stack arrives stack' := by
  intro trail v run hthread
  obtain ⟨m, hm, hgoes⟩ := h v
  have hstep := World.step_of_move hthread hm
  obtain ⟨m', hm', hthread'⟩ := World.thread?_of_step (run.stays_placed hstart).orderly hthread hstep
  cases hm.symm.trans hm'
  obtain ⟨own, w, control', hrun, hown, hthread'', harrives⟩ :=
    hgoes _ _ (run.step hthread hstep) hthread'
  refine ⟨_, w, control', (Run.refl.step hthread hstep).trans hrun, ?_, hthread'', harrives⟩
  intro moment hmoment
  rcases List.mem_cons.mp hmoment with rfl | hmoment
  · rfl
  · exact hown moment hmoment

end Reaches

/-- Whenever the thread is to hand something to the sink it comes back, by a reply or by a panic. -/
def Sink.ComesBack (client : Client M E K H) (n : Nat) (start : World M E K H) (sink : Sink K) : Prop :=
  ∀ diagnostic under, Reaches client n start (.deliver sink diagnostic) under Control.IsReturn under

/-- The client's own sinks in it come back, each time as they like. -/
inductive Sink.Responds (client : Client M E K H) (n : Nat) (start : World M E K H) : Sink K → Prop
  | client {name : String} {code : K} : ComesBack client n start (.client name code) →
      Responds client n start (.client name code)
  | recorder : Responds client n start .recorder
  | set {members : List (Sink K)} : (∀ sink ∈ members, Responds client n start sink) →
      Responds client n start (.set members)

/-- A set comes to its end from wherever it stands, if it does so from where a panic has reached it. -/
theorem World.Placed.goes_on (hstart : start.Placed) {skip : Option Nat}
    (hmembers : ∀ sink ∈ members, sink.ComesBack client n start)
    (hunwind : ∀ payload next, Reaches client n start (.unwind payload)
      (.fanOut members skip next diagnostic :: stack) (· = .resume .done)
      (.fanOut members skip next diagnostic :: stack))
    (next : Nat) (hr : control.IsReturn) :
    Reaches client n start control (.fanOut members skip next diagnostic :: stack) (· = .resume .done) stack := by
  induction hleft : members.length - next generalizing next control with
  | zero =>
    have hnone : members[next]? = none := List.getElem?_eq_none (by omega)
    have hends (reply : Reply M K) : Reaches client n start (.resume reply)
        (.fanOut members skip next diagnostic :: stack) (· = .resume .done) stack := by
      refine .cons hstart fun v => ⟨.answer v stack .done, ?_, .refl rfl⟩
      simp only [World.move, World.resume, hnone]
    cases control <;> try exact hr.elim
    · exact hends _
    · exact (hunwind _ next).trans fun _ h => h ▸ hends _
  | succ left ih =>
    have hlt : next < members.length := by omega
    have hsome : members[next]? = some members[next] := List.getElem?_eq_getElem hlt
    have hmore (reply : Reply M K) : Reaches client n start (.resume reply)
        (.fanOut members skip next diagnostic :: stack) (· = .resume .done) stack := by
      by_cases hskip : skip = some next
      · refine .cons hstart fun v => ⟨.answer v (.fanOut members skip (next + 1) diagnostic :: stack) .done,
          ?_, ih (next + 1) trivial (by omega)⟩
        simp only [World.move, World.resume, hsome, hskip, if_true]
      · refine .cons hstart fun v => ⟨⟨v, .deliver members[next] diagnostic,
          .fanOut members skip (next + 1) diagnostic :: stack⟩, ?_, ?_⟩
        · simp only [World.move, World.resume, hsome, hskip, if_false]
        · exact (hmembers _ (List.getElem_mem hlt) _ _).trans fun _ h => ih (next + 1) h (by omega)
    cases control <;> try exact hr.elim
    · exact hmore _
    · exact (hunwind _ next).trans fun _ h => h ▸ hmore _

/-- A set whose members come back does so, and not by a panic. -/
theorem World.Placed.set_ends (hstart : start.Placed)
    (hmembers : ∀ sink ∈ members, sink.ComesBack client n start) (stack : List (Frame M E K H)) :
    Reaches client n start (.deliver (.set members) diagnostic) stack (· = .resume .done) stack := by
  have hreport (report : Diagnostic) (hkind : report.kind = .sinkPanicked) {skip : Option Nat}
      {stack : List (Frame M E K H)} (next : Nat) {control : Control M E K H} (hr : control.IsReturn) :
      Reaches client n start control (.fanOut members skip next report :: stack) (· = .resume .done) stack := by
    refine hstart.goes_on hmembers ?_ next hr
    intro payload next
    refine .cons hstart fun v => ⟨.answer v (.fanOut members skip next report :: stack) .done, ?_, .refl rfl⟩
    simp only [World.move, World.unwind, hkind, if_true]
  refine .cons hstart fun v => ⟨_, rfl, ?_⟩
  by_cases hkind : diagnostic.kind = .sinkPanicked
  · exact hreport diagnostic hkind 0 trivial
  · refine hstart.goes_on hmembers ?_ 0 trivial
    intro payload next
    refine .cons hstart fun v => ⟨_, rfl, ?_⟩
    simp only [World.unwind, hkind, if_false]
    exact hreport _ rfl 0 trivial

theorem Sink.Responds.comesBack (h : sink.Responds client n start) (hstart : start.Placed) :
    sink.ComesBack client n start := by
  induction h with
  | client h => exact h
  | recorder =>
    intro diagnostic under
    exact .cons hstart fun v => ⟨_, rfl, .refl trivial⟩
  | set _ ih =>
    intro diagnostic under
    exact (hstart.set_ends ih under).trans fun _ h => h ▸ .refl trivial

/-- Code that makes no calls. -/
inductive Code.CallFree {α : Type} : Code M E K H α → Prop
  | ret (value : α) : CallFree (.ret value)
  | panic (payload : Payload) : CallFree (.panic payload)
  | host {change : H → H} {next : H → Code M E K H α} : (∀ host, CallFree (next host)) →
      CallFree (.host change next)

/-- A sink that makes no calls comes back. -/
theorem World.Placed.comes_back (hstart : start.Placed) {name : String} {code : K}
    (h : ∀ diagnostic, (client.sink code diagnostic).CallFree) :
    (Sink.client name code).ComesBack client n start := by
  intro diagnostic under
  have hcode {code : Code M E K H Unit} (hfree : code.CallFree) :
      Reaches client n start (.eval (code.bind fun _ => .ret .done)) (.receiving :: under) Control.IsReturn
        (.receiving :: under) := by
    induction hfree with
    | ret => exact .cons hstart fun v => ⟨_, rfl, .refl trivial⟩
    | panic => exact .cons hstart fun v => ⟨_, rfl, .refl trivial⟩
    | host _ ih => exact .cons hstart fun v => ⟨_, rfl, ih v.host⟩
  refine .cons hstart fun v => ⟨_, rfl, (hcode (h diagnostic)).trans fun control hreturn => ?_⟩
  cases control <;> try exact hreturn.elim
  · exact .cons hstart fun v => ⟨_, rfl, .refl trivial⟩
  · exact .cons hstart fun v => ⟨_, rfl, .refl trivial⟩

/-! ## Sets -/

/-- A set hands a diagnostic to its members in their order, to each one once. Right after a panic of one of
them it tells all others of that, in their order, by a new report with the name of the sink and the text of
the panic, unless the diagnostic is such a report itself; of panics on the way of the report it tells nobody.
So each member is told of all panics but its own, and as sets themselves have none, only the client's own
sinks are reported. Whatever its members do the set never comes back by a panic, and it does come back if
they do. -/
theorem sets_relay_and_isolate {host : H} {past : List (Moment M E K H)}
    (before : Run client (.initial host) past start)
    (hset : start.thread? n = some ⟨n, .deliver (.set members) diagnostic, below⟩) :
    (∀ trail w, Run client start trail w → ∃ during later x thread calls panics,
      trail = during ++ later ∧ Run client start during x ∧ Run client x later w ∧
      x.thread? n = some thread ∧
      Relayed members diagnostic calls panics (setMoments n below during) ∧
      ((created past ++ reportsOf members diagnostic panics).map (·.seq)).Pairwise (· < ·) ∧
      (thread = ⟨n, .resume .done, below⟩ ∧ panics.length = members.length ∧
          calls = handovers members diagnostic panics ∨
        later = [] ∧ x = w ∧
          (thread = ⟨n, .deliver (.set members) diagnostic, below⟩ ∨ thread.IsWithin members diagnostic below) ∧
          ∃ last, calls <+: handovers members diagnostic (panics ++ last) ∧
            (panics ++ last).length ≤ members.length)) ∧
    (∀ panics, panics.length = members.length →
      (diagnostic.kind = .sinkPanicked →
        handovers members diagnostic panics = members.zipIdx.map (·, diagnostic) ∧
        reportsOf members diagnostic panics = []) ∧
      ∀ place < members.length,
        (received place (handovers members diagnostic panics)).count diagnostic = 1 ∧
        (received place (handovers members diagnostic panics)).length = 1 +
          if diagnostic.kind = .sinkPanicked then 0 else (culprits panics).countP (·.1 ≠ place)) ∧
    ((Sink.set members).Responds client n start → ∃ trail w, Run client start trail w ∧
      (∀ m ∈ trail, m.thread.id = n) ∧ w.thread? n = some ⟨n, .resume .done, below⟩) := by
  have hstart := before.placed
  refine ⟨?_, ?_, ?_⟩
  · intro trail w run
    obtain ⟨during, later, x, thread, calls, panics, heq, hduring, hlater, hthread, hrelaying, hrelayed,
      hend⟩ := run.relays hstart hset
    refine ⟨during, later, x, thread, calls, panics, heq, hduring, hlater, hthread, hrelayed, ?_, ?_⟩
    · have hnumbers : ((created (past ++ during)).map (·.seq)).Pairwise (· < ·) := by
        rw [(before.trans hduring).created_numbers]
        exact List.pairwise_lt_range
      refine hnumbers.sublist (List.Sublist.map _ ?_)
      rw [← hrelayed.reported, created, created, created, List.filterMap_append]
      exact (List.Sublist.refl _).append
        ((List.filter_sublist.trans List.filter_sublist).filterMap _)
    · obtain ⟨id, control, stack⟩ := thread
      obtain rfl : id = n := World.id_of_thread? hthread
      rcases hrelaying.whereabouts (n := id) with ⟨rfl, rfl⟩ | hwithin | ⟨⟨rfl, rfl⟩, hlength, hcalls⟩
      · obtain ⟨hlater, hx⟩ := hend.resolve_left fun h => h.2
        exact .inr ⟨hlater, hx, .inl rfl, hrelaying.calls_prefix⟩
      · obtain ⟨hlater, hx⟩ := hend.resolve_left fun h => hwithin.ne_below h.1
        exact .inr ⟨hlater, hx, .inr hwithin, hrelaying.calls_prefix⟩
      · exact .inl ⟨rfl, hlength, hcalls⟩
  · intro panics hlength
    refine ⟨fun hkind => handovers_of_sinkPanicked hkind hlength, ?_⟩
    intro place hplace
    obtain ⟨hcount, hall⟩ := received_handovers diagnostic hplace (Nat.le_of_eq hlength)
    rw [hlength, if_pos hplace] at hcount hall
    exact ⟨hcount, hall⟩
  · intro hresponds
    cases hresponds with
    | set hmembers =>
      obtain ⟨trail, w, control, run, hown, hthread, rfl⟩ := hstart.set_ends
        (fun sink hsink => (hmembers sink hsink).comesBack hstart) below [] start .refl hset
      exact ⟨trail, w, run, hown, hthread⟩

/-- A client whose sinks panic with a text or return. -/
def brittleClient : Client Unit Unit Bool Unit :=
  { plainClient with sink := fun steady _ => if steady then .ret () else .panic (.text "worn out") }

theorem sets_relay_and_isolate_nested :
    let members : List (Sink Bool) :=
      [.client "worn" false, .set [.client "inner" false, .recorder], .client "log" true]
    let past := World.runCalls brittleClient () [.report (.set members) .lateEvent none none] 3
    let trail := past.2.trace brittleClient 60
    ∃ below, past.2.thread? 0 = some ⟨0, .deliver (.set members) ⟨.lateEvent, none, none, 0⟩, below⟩ ∧
      ((setMoments 0 below trail.1).filterMap Moment.handover?).map
          (fun call => (call.1.2, call.2.kind, call.2.label)) =
        [(0, .lateEvent, none), (1, .sinkPanicked, some "worn"), (2, .sinkPanicked, some "worn"),
          (1, .lateEvent, none), (2, .lateEvent, none)] ∧
      (∃ during panics, ∃ x : World Unit Unit Bool Unit, during <+: trail.1 ∧
        x.thread? 0 = some ⟨0, .resume .done, below⟩ ∧
        Relayed members ⟨.lateEvent, none, none, 0⟩ (handovers members ⟨.lateEvent, none, none, 0⟩ panics)
          panics (setMoments 0 below during)) ∧
      ∃ own w, Run brittleClient past.2 own w ∧ w.thread? 0 = some ⟨0, .resume .done, below⟩ := by
  intro members past trail
  have before : Run brittleClient (.initial ()) past.1 past.2 := World.run_runCalls _ _ _ _
  have run : Run brittleClient past.2 trail.1 trail.2 := World.run_trace brittleClient 60 past.2
  have hset : past.2.thread? 0 = some ⟨0, .deliver (.set members) ⟨.lateEvent, none, none, 0⟩, [.caller _]⟩ :=
    rfl
  have hcomes (name : String) (code : Bool) :
      (Sink.client name code).Responds brittleClient 0 past.2 := by
    refine .client (before.placed.comes_back ?_)
    intro diagnostic
    cases code
    · exact .panic _
    · exact .ret _
  have hmembers : (Sink.set members).Responds brittleClient 0 past.2 := by
    refine .set fun sink hsink => ?_
    simp only [members, List.mem_cons, List.not_mem_nil, or_false] at hsink
    rcases hsink with rfl | rfl | rfl
    · exact hcomes _ _
    · refine .set fun sink hsink => ?_
      simp only [List.mem_cons, List.not_mem_nil, or_false] at hsink
      rcases hsink with rfl | rfl
      · exact hcomes _ _
      · exact .recorder
    · exact hcomes _ _
  obtain ⟨hrelays, -, hback⟩ := sets_relay_and_isolate before hset
  obtain ⟨own, w, hown, -, hw⟩ := hback hmembers
  refine ⟨_, hset, by decide, ?_, own, w, hown, hw⟩
  obtain ⟨during, later, x, thread, calls, panics, heq, -, -, hthread, hrelayed, -, hend⟩ :=
    hrelays trail.1 trail.2 run
  rcases hend with ⟨hover, -, hcalls⟩ | ⟨-, hend, hmid, -⟩
  · rw [hover] at hthread
    rw [hcalls] at hrelayed
    exact ⟨during, panics, x, ⟨later, heq.symm⟩, hthread, hrelayed⟩
  · -- the thread is over when the run ends, so the set has been left
    have hover : (trail.2.thread? 0).map (·.stack.length) = some 0 := by decide
    rw [← hend, hthread, Option.map_some, Option.some.injEq] at hover
    rcases hmid with hbegins | ⟨above, next, hstack⟩
    · rw [hbegins] at hover
      cases hover
    · rw [hstack] at hover
      simp at hover

end Exchange
