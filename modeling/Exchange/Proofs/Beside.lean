import Exchange.Proofs.Sparing

/-!
A run beside another. Its exchange is that of the first made to look different, and in a report, which the
first may still be in the middle of, it is further on; of the client's state all that code sees is the same. Step
by step the two tell the same, except for the numbers of diagnostics.
-/

namespace Exchange
set_option autoImplicit false

variable {M E K H V : Type} {client : Client M E K H} {v w w' : World M E K H} {t : Nat}
  {thread : Thread M E K H}
variable {control control' : Control M E K H} {stack stack' : List (Frame M E K H)}
variable {first second : List (Moment M E K H)} {view : H → V} {r r' : Recast M E K H} {host : H} {seq : Nat}
variable {goes goes' : List (Moment M E K H) → World M E K H → Prop}

/-- Whoever reports something, or is in the middle of a report, goes on with it. -/
def Reports (client : Client M E K H) (goes : List (Moment M E K H) → World M E K H → Prop) : Prop :=
  ∀ ⦃trail v v' t thread⦄, goes trail v → v.thread? t = some thread →
    (thread.isReporting ∨ thread.control.isReport) → v.step client t = some v' →
    goes (trail ++ [⟨v, thread⟩]) v'

theorem Reports.run {u : World M E K H} : Reports client (Run client u) :=
  fun _ _ _ _ _ run ht _ hs => run.step ht hs

theorem Reports.sparing {u : World M E K H} {spared : Nat → Nat → Bool} :
    Reports client (Sparing client spared u) := by
  intro trail v v' t thread run ht hr hs
  refine run.step ht ?_ hs
  obtain ⟨n, control, stack⟩ := thread
  cases control with
  | unwind => simp [Thread.isReporting, Control.isReport] at hr
  | _ => rfl

/-! ## Reports to sinks that only record -/

/-- Wherever the run has come to, the thread can go on with its report from the one place to the other. -/
def Passes (goes : List (Moment M E K H) → World M E K H → Prop) (view : H → V) (v : World M E K H)
    (t : Nat) (control : Control M E K H) (stack : List (Frame M E K H)) (control' : Control M E K H)
    (stack' : List (Frame M E K H)) : Prop :=
  ∀ trail host, goes trail ({ v with host }.put t control stack) →
    ∃ later host', goes (trail ++ later) ({ v with host := host' }.put t control' stack') ∧
      (∀ m ∈ later, m.thread.isReporting) ∧ view host' = view host

namespace Passes

theorem refl : Passes goes view v t control stack control stack := by
  intro trail host hrun
  exact ⟨[], host, by simpa using hrun, by simp, rfl⟩

theorem trans {middle : Control M E K H} {rest : List (Frame M E K H)}
    (h : Passes goes view v t control stack middle rest)
    (h' : Passes goes view v t middle rest control' stack') :
    Passes goes view v t control stack control' stack' := by
  intro trail host hrun
  obtain ⟨later, host₁, hrun₁, hlater, hview₁⟩ := h trail host hrun
  obtain ⟨last, host₂, hrun₂, hlast, hview₂⟩ := h' _ host₁ hrun₁
  refine ⟨later ++ last, host₂, by simpa using hrun₂, ?_, hview₂.trans hview₁⟩
  intro m hm
  rcases List.mem_append.mp hm with hm | hm
  · exact hlater m hm
  · exact hlast m hm

variable (hgoes : Reports client goes)
include hgoes

/-- One step, and then the rest of the way. -/
theorem cons (hv : (v.thread? t).isSome) (hr : Thread.isReporting ⟨t, control, stack⟩)
    (h : ∀ host, ∃ host' middle rest,
      ({ v with host }.put t control stack).move client t stack control =
        some ⟨{ v with host := host' }.put t control stack, middle, rest⟩ ∧ view host' = view host ∧
      Passes goes view v t middle rest control' stack') :
    Passes goes view v t control stack control' stack' := by
  intro trail host hrun
  obtain ⟨host₁, middle, rest, hm, hview₁, hpasses⟩ := h host
  have ht : ({ v with host }.put t control stack).thread? t = some ⟨t, control, stack⟩ :=
    World.thread?_put hv
  have hstep := hgoes hrun ht (.inl hr) (World.step_of_move ht hm)
  rw [World.put_put] at hstep
  obtain ⟨later, host₂, hrun₂, hlater, hview₂⟩ := hpasses _ host₁ hstep
  refine ⟨_ :: later, host₂, by simpa using hrun₂, ?_, hview₂.trans hview₁⟩
  intro m hm
  rcases List.mem_cons.mp hm with rfl | hm
  · exact hr
  · exact hlater m hm

theorem code {code : Code M E K H Unit} {frame : Frame M E K H} (hv : (v.thread? t).isSome)
    (hf : frame.reports) (hcode : code.Records view) :
    Passes goes view v t (.eval (code.bind fun _ => .ret .done)) (frame :: stack)
      (.resume .done) (frame :: stack) := by
  induction hcode with
  | ret value => exact cons hgoes hv hf fun host => ⟨host, _, _, rfl, rfl, refl⟩
  | host hchange hnext ih => exact cons hgoes hv hf fun host => ⟨_, _, _, rfl, hchange host, ih host⟩

/-- A set hands a diagnostic on from member to member. -/
theorem members {members : List (Sink K)} {diagnostic : Diagnostic} (hv : (v.thread? t).isSome)
    (h : ∀ sink ∈ members, ∀ stack, Passes goes view v t (.deliver sink diagnostic) stack
      (.resume .done) stack) (next : Nat) :
    Passes goes view v t (.resume .done) (.fanOut members none next diagnostic :: stack)
      (.resume .done) stack := by
  induction hleft : members.length - next generalizing next with
  | zero =>
    have hnone : members[next]? = none := List.getElem?_eq_none (by omega)
    refine cons hgoes hv rfl fun host => ⟨host, _, _, ?_, rfl, refl⟩
    simp only [World.move, World.resume, hnone]
    rfl
  | succ left ih =>
    have hlt : next < members.length := by omega
    have hsome : members[next]? = some members[next] := List.getElem?_eq_getElem hlt
    refine cons hgoes hv rfl fun host => ⟨host, .deliver members[next] diagnostic,
      .fanOut members none (next + 1) diagnostic :: stack, ?_, rfl, ?_⟩
    · simp [World.move, World.resume, hsome]
    · exact (h _ (List.getElem_mem hlt) _).trans (ih (next + 1) (by omega))

/-- A report comes to its end. -/
theorem deliver (hc : client.Records view) (hv : (v.thread? t).isSome) (diagnostic : Diagnostic) :
    ∀ (sink : Sink K) (stack : List (Frame M E K H)),
      Passes goes view v t (.deliver sink diagnostic) stack (.resume .done) stack
  | .client name code', stack => by
    refine cons hgoes hv rfl fun host => ⟨host, _, _, rfl, rfl, ?_⟩
    exact (code hgoes hv rfl (hc.sink code' diagnostic)).trans
      (cons hgoes hv rfl fun host => ⟨host, _, _, rfl, rfl, refl⟩)
  | .recorder, stack => cons hgoes hv rfl fun host => ⟨_, _, _, rfl, hc.record _ host, refl⟩
  | .set sinks, stack => by
    refine cons hgoes hv rfl fun host => ⟨host, _, _, rfl, rfl, members hgoes hv ?_ 0⟩
    intro sink hsink
    exact deliver hc hv diagnostic sink
  termination_by sink => sizeOf sink
  decreasing_by
    have hlt := List.sizeOf_lt_of_mem hsink
    simp only [Sink.set.sizeOf_spec]
    omega

end Passes

/-! ## The other run -/

/-- The thread looks as it is, but its reports look as if they were over. -/
structure Recast.Shows (r : Recast M E K H) (view : H → V) (t : Nat) : Prop where
  apart : ∀ ⦃control stack⦄, Thread.Apart ⟨t, control, stack⟩ →
    r.thread ⟨t, control, stack⟩ = ⟨t, control, stack⟩
  reporting : ∀ ⦃control stack⦄, Reporting view control stack →
    r.thread ⟨t, control, stack⟩ = ⟨t, .resume .done, beneath stack⟩

/-- A run that has come as far as the first one: its exchange is that of the first, made to look different. -/
structure Beside (goes : List (Moment M E K H) → World M E K H → Prop) (r : Recast M E K H) (view : H → V)
    (first : List (Moment M E K H)) (w : World M E K H) (second : List (Moment M E K H)) (host : H)
    (seq : Nat) : Prop where
  run : goes second (w.recast (r.hosting host seq))
  view : view host = view w.host
  alike : Alike second first
  numbers : (diagnoses second).map (·.2.seq) = List.range seq

namespace Beside

/-- A step of the first run that leads to what looks the same. -/
theorem rests (h : Beside goes r view first w second host seq) (host' : H) (seq' : Nat) (ho : w.Orderly)
    (ht : w.thread? t = some thread) (hr : r'.thread ⟨t, control, stack⟩ = r.thread thread)
    (hothers : ∀ other : Thread M E K H, other.id ≠ t → r'.thread other = r.thread other)
    (hanswers : r'.answers = r.answers) (hview : view host' = view w.host) :
    Beside goes r' view first ({ w with host := host', nextSeq := seq' }.put t control stack) second host seq :=
  ⟨World.recast_unseen ho ht hr hothers hanswers ▸ h.run, h.view.trans hview.symm, h.alike, h.numbers⟩

/-- A step within a report that is under way. -/
theorem stutters (h : Beside goes r view first w second host seq) (ho : w.Orderly) (hc : client.Records view)
    (hshows : r.Shows view t) (ht : w.thread? t = some thread) (hr : thread.isReporting)
    (hreporting : Reporting view thread.control thread.stack) (hs : w.step client t = some w') :
    Beside goes r view (first ++ [⟨w, thread⟩]) w' second host seq ∧ w'.nextSeq = w.nextSeq := by
  obtain ⟨n, control, stack⟩ := thread
  obtain rfl : n = t := World.id_of_thread? ht
  obtain ⟨m, hm, -⟩ := World.thread?_of_step ho ht hs
  obtain ⟨hgoes, hbeneath, host', hworld, hview⟩ := hreporting.step hc hr hm
  rw [World.step_of_move ht hm, Option.some_inj, hworld] at hs
  subst hs
  have hlooks : r.thread ⟨n, m.control, m.stack⟩ = r.thread ⟨n, control, stack⟩ := by
    rw [hshows.reporting hgoes, hshows.reporting hreporting, hbeneath]
  have hrests := h.rests host' w.nextSeq ho ht hlooks (fun _ _ => rfl) rfl hview
  have hsilent : Alike [] [⟨w, ⟨n, control, stack⟩⟩] :=
    (Alike.of_reporting fun m hm => List.mem_singleton.mp hm ▸ hr).symm
  refine ⟨⟨hrests.run, hrests.view, ?_, h.numbers⟩, rfl⟩
  simpa using h.alike.append hsilent

/-- A report that both runs make: that of the second is over at once. -/
theorem reports (h : Beside goes r view first w second host seq) (ho : w.Orderly) (hc : client.Records view)
    (hsuits : r.Suits w) (hshows : r.Shows view t) (hgoes : Reports client goes)
    (ht : w.thread? t = some thread) (ha : thread.Apart) (hr : thread.control.isReport)
    (hs : w.step client t = some w') :
    (∃ second host seq, Beside goes r view (first ++ [⟨w, thread⟩]) w' second host seq) ∧
      w'.nextSeq = w.nextSeq + 1 := by
  obtain ⟨n, control, stack⟩ := thread
  obtain rfl : n = t := World.id_of_thread? ht
  obtain ⟨m, hm, -⟩ := World.thread?_of_step ho ht hs
  obtain ⟨hbeneath, hbears, sink, kind, label, reason, hcontrol, rfl⟩ := ha.reports hr hm
  rw [World.step_of_move ht hm, Option.some_inj] at hs
  obtain rfl : control = .act (.report sink kind label reason) := hcontrol
  subst hs
  refine ⟨?_, rfl⟩
  let v := w.recast (r.hosting host seq)
  have hv : v.thread? n = some ⟨n, .act (.report sink kind label reason), stack⟩ := by
    rw [World.recast_thread?, ht]
    exact congrArg some (hshows.apart ha)
  have hbegun := hgoes h.run hv (.inr rfl) (World.step_of_move hv rfl)
  obtain ⟨later, host', hrun, hlater, hview⟩ :=
    Passes.deliver (v := { v with nextSeq := seq + 1 }) hgoes hc (Option.isSome_of_eq_some hv)
      ⟨kind, label, reason, seq⟩ sink stack _ host hbegun
  have hsilent : Alike later [] := .of_reporting hlater
  have hreporting : Reporting view (.deliver sink ⟨kind, label, reason, w.nextSeq⟩ : Control M E K H)
      stack := .delivers _ _ hbears
  have hlooks := hshows.reporting hreporting
  rw [hbeneath] at hlooks
  refine ⟨second ++ [⟨v, ⟨n, .act (.report sink kind label reason), stack⟩⟩] ++ later, host', seq + 1, ?_,
    hview.trans h.view, ?_, ?_⟩
  · rw [World.put_recast hlooks (fun _ _ => rfl) rfl]
    exact hrun
  · have hlast : Alike [⟨v, ⟨n, .act (.report sink kind label reason), stack⟩⟩]
        [⟨w, ⟨n, .act (.report sink kind label reason), stack⟩⟩] := .recast hsuits.holdsPoint
    simpa using (h.alike.append hlast).append hsilent
  · have hnone : diagnoses later = [] := List.map_eq_nil_iff.mp hsilent.diagnoses
    rw [diagnoses_append, hnone, List.append_nil]
    exact numbers_snoc _ h.numbers

/-- Any other step is taken by both runs. -/
theorem steps (h : Beside goes r view first w second host seq) (hw : w.Recorded view)
    (hb : Moment.Blind client view ⟨w, thread⟩) (hsuits : r.Suits w) (hset : ∀ u, r.answers u = id)
    (hshows : r.Shows view t) (ht : w.thread? t = some thread) (ha : thread.Apart)
    (hr : thread.control.isReport = false)
    (hgoes : ∀ v v', v.points = w.points → v.thread? t = some thread → goes second v →
      v.step client t = some v' → goes' (second ++ [⟨v, thread⟩]) v')
    (hs : w.step client t = some w') :
    (∃ second host, Beside goes' r view (first ++ [⟨w, thread⟩]) w' second host seq) ∧
      w'.nextSeq = w.nextSeq := by
  obtain ⟨n, control, stack⟩ := thread
  obtain rfl : n = t := World.id_of_thread? ht
  obtain ⟨m, hm, -⟩ := World.thread?_of_step hw.orderly ht hs
  have hstacked := (hw.disciplined _ (World.mem_of_thread? ht)).stacked
  have hnext : Thread.Apart ⟨n, m.control, m.stack⟩ := (World.move_stride hm).apart ha hstacked hr
  rw [World.step_of_move ht hm, Option.some_inj] at hs
  obtain ⟨hseq, host', hmove, hview⟩ := World.recast_moves seq hsuits hset ha hr hb h.view hm
  have hv : (w.recast (r.hosting host seq)).thread? n = some ⟨n, control, stack⟩ := by
    rw [World.recast_thread?, ht]
    exact congrArg some (hshows.apart ha)
  have hrun := hgoes (w.recast (r.hosting host seq)) _ rfl hv h.run (World.step_of_move hv hmove)
  subst hs
  have hlast : Alike [⟨w.recast (r.hosting host seq), ⟨n, control, stack⟩⟩] [⟨w, ⟨n, control, stack⟩⟩] :=
    .recast hsuits.holdsPoint
  refine ⟨⟨second ++ [⟨w.recast (r.hosting host seq), ⟨n, control, stack⟩⟩], host', ?_, hview,
    h.alike.append hlast, ?_⟩, hseq⟩
  · rw [World.put_recast (hshows.apart hnext) (fun _ _ => rfl) rfl]
    exact hrun
  · rw [diagnoses_append, diagnoses_of_not_report hr, List.append_nil]
    exact h.numbers

/-- A step of the first run that the second follows. -/
theorem follows (h : Beside goes r view first w second host seq) (hw : w.Recorded view)
    (hc : client.Records view) (hb : Moment.Blind client view ⟨w, thread⟩) (hsuits : r.Suits w)
    (hset : ∀ u, r.answers u = id) (hshows : r.Shows view t) (hreports : Reports client goes)
    (ht : w.thread? t = some thread)
    (hgoes : ∀ v v', v.points = w.points → v.thread? t = some thread → goes second v →
      v.step client t = some v' → goes' (second ++ [⟨v, thread⟩]) v')
    (hsame : thread.isReporting ∨ thread.control.isReport → goes' = goes)
    (hs : w.step client t = some w') :
    (∃ second host seq, Beside goes' r view (first ++ [⟨w, thread⟩]) w' second host seq) ∧
      w'.nextSeq = w.nextSeq + if thread.control.isReport then 1 else 0 := by
  have apart (ha : thread.Apart) :
      (∃ second host seq, Beside goes' r view (first ++ [⟨w, thread⟩]) w' second host seq) ∧
        w'.nextSeq = w.nextSeq + if thread.control.isReport then 1 else 0 := by
    cases hr : thread.control.isReport with
    | true =>
      rw [hsame (.inr hr)]
      exact h.reports hw.orderly hc hsuits hshows hreports ht ha hr hs
    | false =>
      obtain ⟨⟨second, host, hnext⟩, hseq⟩ := h.steps hw hb hsuits hset hshows ht ha hr hgoes hs
      exact ⟨⟨second, host, seq, hnext⟩, hseq⟩
  rcases hw.heard thread (World.mem_of_thread? ht) with ha | hreporting
  · exact apart ha
  · cases hr : thread.isReporting with
    | true =>
      obtain ⟨hnext, hseq⟩ := h.stutters hw.orderly hc hshows ht hr hreporting hs
      rw [hreporting.not_report, hsame (.inl hr)]
      exact ⟨⟨second, host, seq, hnext⟩, hseq⟩
    | false => exact apart (hreporting.apart hr)

theorem between (h : Beside goes r view first w second host seq) (hsuits : r.Suits w)
    (hgoes : ∀ v v', goes second v → Between client v v' → goes second v') (hb : Between client w w') :
    w'.nextSeq = w.nextSeq ∧ ∃ host, Beside goes r view first w' second host seq := by
  obtain ⟨hseq, host', hbetween, hview⟩ := World.hosting_between hsuits h.view hb
  exact ⟨hseq, host', hgoes _ _ h.run hbetween, hview, h.alike, h.numbers⟩

end Beside
end Exchange
