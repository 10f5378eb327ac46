import Exchange.Proofs.Chronicle

/-!
Reports to sinks that only record. Such a report goes from sink to sink and is over: nothing changes but
the client's own state, and of that nothing that other code sees.
-/

namespace Exchange
set_option autoImplicit false

variable {M E K H V : Type} {client : Client M E K H} {w w' : World M E K H} {t n : Nat}
  {thread : Thread M E K H}
variable {control : Control M E K H} {stack : List (Frame M E K H)} {m : Move M E K H}
variable {frame : Frame M E K H} {view : H → V}

/-- The code returns, and changes nothing of the client's state that is in view. -/
inductive Code.Records {α : Type} (view : H → V) : Code M E K H α → Prop
  | ret (value : α) : Records view (.ret value)
  | host {change : H → H} {next : H → Code M E K H α} : (∀ host, view (change host) = view host) →
      (∀ host, Records view (next host)) → Records view (.host change next)

/-- All sinks of the client only record, out of view. -/
structure Client.Records (client : Client M E K H) (view : H → V) : Prop where
  sink : ∀ code diagnostic, (client.sink code diagnostic).Records view
  record : ∀ entry host, view (client.record entry host) = view host

/-! ## Threads in the middle of a report -/

/-- The frame is part of a report. -/
def Frame.reports : Frame M E K H → Bool
  | .receiving | .fanOut _ _ _ _ => true
  | _ => false

theorem Frame.IsFanOut.reports (h : frame.IsFanOut) : frame.reports = true := by
  cases frame <;> first | exact h.elim | rfl

/-- What stands beneath a report. -/
def beneath (stack : List (Frame M E K H)) : List (Frame M E K H) := stack.dropWhile Frame.reports

@[simp] theorem beneath_cons (h : frame.reports) : beneath (frame :: stack) = beneath stack := by
  simp [beneath, h]

theorem beneath_eq (h : ∀ frame ∈ stack, frame.reports = false) : beneath stack = stack := by
  cases stack with
  | nil => rfl
  | cons frame stack => simp [beneath, h frame List.mem_cons_self]

/-- The stack bears a report: beneath it there is something, and no other report. -/
structure Bears (stack : List (Frame M E K H)) : Prop where
  ne_nil : beneath stack ≠ []
  reports : ∀ frame ∈ beneath stack, frame.reports = false

theorem Bears.cons (h : Bears stack) (hf : frame.reports) : Bears (frame :: stack) := by
  constructor
  · rw [beneath_cons hf]
    exact h.ne_nil
  · rw [beneath_cons hf]
    exact h.reports

theorem Bears.of_cons (h : Bears (frame :: stack)) (hf : frame.reports) : Bears stack := by
  obtain ⟨hne, hreports⟩ := h
  rw [beneath_cons hf] at hne hreports
  exact ⟨hne, hreports⟩

/-- The thread is in the middle of a report. -/
def Thread.isReporting (thread : Thread M E K H) : Bool :=
  match thread.control, thread.stack with
  | .deliver _ _, _ => true
  | .eval _, frame :: _ | .resume _, frame :: _ => frame.reports
  | _, _ => false

/-- What code other than that of sinks does to the client's state, and how it goes on, depends on nothing
that is out of view. -/
def Moment.Blind (client : Client M E K H) (view : H → V) (m : Moment M E K H) : Prop :=
  match m.thread.control with
  | .eval (.host change next) => m.thread.isReporting = false →
      ∀ host, view host = view m.world.host →
        view (change host) = view (change m.world.host) ∧ next host = next m.world.host
  | .act (.announce producer point) => ∀ host, view host = view m.world.host →
      view (client.bound producer point host) = view (client.bound producer point m.world.host)
  | _ => True

/-- The client's state is changed, be it by code or by the news of a binding. -/
def Control.touchesHost : Control M E K H → Bool
  | .eval (.host _ _) | .act (.announce _ _) => true
  | _ => false

theorem Moment.blind_of_not_touchesHost {moment : Moment M E K H}
    (h : moment.thread.control.touchesHost = false) : moment.Blind client view := by
  obtain ⟨w, n, control, stack⟩ := moment
  cases control with
  | eval code => cases code <;> trivial
  | act act => cases act <;> trivial
  | _ => trivial

/-- How a report goes on whose sinks only record: the last step leads beneath it. -/
inductive Reporting (view : H → V) : Control M E K H → List (Frame M E K H) → Prop
  | delivers {stack : List (Frame M E K H)} (sink : Sink K) (diagnostic : Diagnostic) :
      Bears stack → Reporting view (.deliver sink diagnostic) stack
  | records {frame : Frame M E K H} {stack : List (Frame M E K H)} {code : Code M E K H Unit} :
      code.Records view → frame.reports → Bears stack →
      Reporting view (.eval (code.bind fun _ => .ret .done)) (frame :: stack)
  | returns {stack : List (Frame M E K H)} : Bears stack → Reporting view (.resume .done) stack

/-- What a thread that has no part in a report can be about to do above a stack. -/
def Control.IsApart (stack : List (Frame M E K H)) : Control M E K H → Prop
  | .deliver _ _ => False
  | .act _ | .perform _ => stack ≠ []
  | _ => True

/-- The thread has no part in a report. -/
structure Thread.Apart (thread : Thread M E K H) : Prop where
  stack : ∀ frame ∈ thread.stack, frame.reports = false
  control : thread.control.IsApart thread.stack

/-- The thread is in the middle of a report or has no part in any. -/
def Thread.Heard (view : H → V) (thread : Thread M E K H) : Prop :=
  thread.Apart ∨ Reporting view thread.control thread.stack

theorem Thread.Apart.not_reporting (h : thread.Apart) : thread.isReporting = false := by
  obtain ⟨id, control, stack⟩ := thread
  obtain ⟨hstack, hcontrol⟩ := h
  cases control with
  | deliver => exact hcontrol.elim
  | eval code =>
    cases stack with
    | nil => rfl
    | cons frame stack => exact hstack frame List.mem_cons_self
  | resume reply =>
    cases stack with
    | nil => rfl
    | cons frame stack => exact hstack frame List.mem_cons_self
  | _ => rfl

theorem Reporting.apart (h : Reporting view thread.control thread.stack)
    (hr : thread.isReporting = false) : thread.Apart := by
  obtain ⟨id, control, stack⟩ := thread
  dsimp only at h
  cases h with
  | delivers => cases hr
  | records _ hf =>
    have hf' : Frame.reports _ = false := hr
    rw [hf] at hf'
    cases hf'
  | returns hbears =>
    cases stack with
    | nil => exact ⟨by simp, trivial⟩
    | cons frame stack =>
      have hf : frame.reports = false := hr
      have hbeneath : beneath (frame :: stack) = frame :: stack := by simp [beneath, hf]
      exact ⟨hbeneath ▸ hbears.reports, trivial⟩

theorem Reporting.bears (h : Reporting view control stack) : Bears stack := by
  cases h with
  | delivers _ _ hb => exact hb
  | records _ hf hb => exact hb.cons hf
  | returns hb => exact hb

theorem Thread.Heard.sinkPanics (h : thread.Heard view) : thread.sinkPanics = false := by
  obtain ⟨id, control, stack⟩ := thread
  rcases h with ⟨hstack, -⟩ | h
  · cases control with
    | unwind payload =>
      cases stack with
      | nil => rfl
      | cons frame stack =>
        have hf : frame.reports = false := hstack frame List.mem_cons_self
        cases frame <;> first | rfl | cases hf
    | _ => rfl
  · dsimp only at h
    cases h <;> rfl

theorem Thread.IsBare.apart (h : thread.IsBare) : thread.Apart := by
  obtain ⟨id, control, stack⟩ := thread
  cases control <;> cases stack <;> first | exact h.elim | exact ⟨by simp, trivial⟩

theorem Thread.Begins.apart (h : thread.Begins) : thread.Apart := by
  cases h with
  | bare h => exact h.apart
  | turn => exact ⟨by simp [Frame.reports], trivial⟩
  | closing => exact ⟨by simp [Frame.reports], trivial⟩

/-! ## Steps -/

/-- A step of a report: the client's state is all that changes, out of view. -/
theorem Reporting.step (hc : client.Records view) (h : Reporting view control stack)
    (hr : Thread.isReporting ⟨n, control, stack⟩) (hm : w.move client t stack control = some m) :
    Reporting view m.control m.stack ∧ beneath m.stack = beneath stack ∧
      (∃ host, m.world = { w with host } ∧ view host = view w.host) := by
  cases h with
  | delivers sink diagnostic hb =>
    cases hm
    cases sink with
    | client name code => exact ⟨.records (hc.sink _ _) rfl hb, beneath_cons rfl, _, rfl, rfl⟩
    | recorder => exact ⟨.returns hb, rfl, _, rfl, hc.record _ _⟩
    | set members => exact ⟨.returns (hb.cons rfl), beneath_cons rfl, _, rfl, rfl⟩
  | records hcode hf hb =>
    cases hcode with
    | ret value =>
      cases hm
      exact ⟨.returns (hb.cons hf), rfl, _, rfl, rfl⟩
    | host hchange hnext =>
      cases hm
      exact ⟨.records (hnext _) hf hb, rfl, _, rfl, hchange _⟩
  | returns hb =>
    cases stack with
    | nil => cases hm
    | cons frame stack =>
      cases frame with
      | receiving =>
        cases hm
        exact ⟨.returns (hb.of_cons rfl), (beneath_cons rfl).symm, _, rfl, rfl⟩
      | fanOut members skip next diagnostic =>
        cases hm
        have hb := hb.of_cons rfl
        have hbeneath : beneath (.fanOut members skip (next + 1) diagnostic :: stack) =
            beneath (.fanOut members skip next diagnostic :: stack) :=
          (beneath_cons rfl).trans (beneath_cons rfl).symm
        simp only [World.resume]
        split
        · exact ⟨.returns hb, (beneath_cons rfl).symm, _, rfl, rfl⟩
        · split
          · exact ⟨.returns (hb.cons rfl), hbeneath, _, rfl, rfl⟩
          · exact ⟨.delivers _ _ (hb.cons rfl), hbeneath, _, rfl, rfl⟩
      | _ => cases hr

def Act.isReport : Act M E K → Bool
  | .report _ _ _ _ => true
  | _ => false

/-- The thread is about to report something. -/
def Control.isReport : Control M E K H → Bool
  | .act due => due.isReport
  | _ => false

theorem Reporting.not_report (h : Reporting view control stack) : control.isReport = false := by
  cases h <;> rfl

theorem Thread.Heard.apart_of_report (h : thread.Heard view) (hr : thread.control.isReport) :
    thread.Apart := by
  rcases h with ha | hreporting
  · exact ha
  · rw [hreporting.not_report] at hr
    cases hr

theorem Thread.Heard.apart_of_perform {op : Op M E K} (h : Thread.Heard view ⟨n, .perform op, stack⟩) :
    Thread.Apart ⟨n, .perform op, stack⟩ := by
  rcases h with ha | hreporting
  · exact ha
  · cases hreporting

theorem Thread.Heard.ne_nil_of_report (h : thread.Heard view) (hr : thread.control.isReport) :
    thread.stack ≠ [] := by
  have ha := (h.apart_of_report hr).control
  cases hcontrol : thread.control with
  | act due =>
    rw [hcontrol] at ha
    exact ha
  | _ =>
    rw [hcontrol] at hr
    cases hr

/-- A thread that has no part in a report takes part in none until it reports something itself. -/
theorem Stride.apart (h : Stride client w t control stack m) (ha : Thread.Apart ⟨n, control, stack⟩)
    (hs : Stacked stack) (hr : control.isReport = false) : Thread.Apart ⟨n, m.control, m.stack⟩ := by
  obtain ⟨hstack, hcontrol⟩ := ha
  dsimp only at hstack hcontrol
  have pops {frame : Frame M E K H} {rest : List (Frame M E K H)} (heq : stack = frame :: rest) :
      frame.reports = false ∧ ∀ frame ∈ rest, frame.reports = false := by
    subst heq
    simpa using hstack
  have pushes {frame : Frame M E K H} {rest : List (Frame M E K H)} (hf : frame.reports = false)
      (h : ∀ frame ∈ rest, frame.reports = false) : ∀ other ∈ frame :: rest, other.reports = false := by
    simpa using ⟨hf, h⟩
  cases h with
  | returns => exact ⟨hstack, trivial⟩
  | panics => exact ⟨hstack, trivial⟩
  | changes => exact ⟨hstack, trivial⟩
  | calls => exact ⟨pushes rfl hstack, by simp [Control.IsApart]⟩
  | answers => exact ⟨hstack, trivial⟩
  | owes => exact ⟨pushes rfl hstack, trivial⟩
  | serves => exact ⟨pushes rfl hstack, trivial⟩
  | emits => exact ⟨hstack, hcontrol⟩
  | attempts => exact ⟨pushes rfl hstack, trivial⟩
  | forks => exact ⟨hstack, trivial⟩
  | forksAndWaits => exact ⟨hstack, trivial⟩
  | joins => exact ⟨hstack, trivial⟩
  | joinsPanic => exact ⟨hstack, trivial⟩
  | @acts act _ _ next _ hleads =>
    refine ⟨hstack, ?_⟩
    rcases hleads.control_cases with ⟨_, _, _, _, rfl, -⟩ | rfl | ⟨-, ⟨_, rfl⟩ | ⟨_, rfl, rfl⟩⟩
    · cases hr
    · exact trivial
    · exact trivial
    · exact hcontrol
  | tells => exact hcontrol.elim
  | records => exact hcontrol.elim
  | fansOut => exact hcontrol.elim
  | goesOn => exact ⟨(pops rfl).2, trivial⟩
  | handsOn _ _ hf => exact absurd hf.reports (by simp [(pops rfl).1])
  | fansOn _ _ _ hf => exact absurd hf.reports (by simp [(pops rfl).1])
  | runsOn => exact ⟨pushes rfl (pops rfl).2, trivial⟩
  | closes => exact ⟨pushes rfl (pushes rfl (pops rfl).2), trivial⟩
  | pops => exact ⟨(pops rfl).2, trivial⟩
  | unwinds => exact ⟨(pops rfl).2, trivial⟩
  | settles => exact ⟨(pops rfl).2, trivial⟩
  | proceeds => exact ⟨pushes rfl (pops rfl).2, by simp [Control.IsApart]⟩
  | gives => exact ⟨pushes rfl hstack, by simp [Control.IsApart]⟩
  | advances => exact ⟨hstack, trivial⟩
  | drops => exact ⟨hstack, by simp [Control.IsApart]⟩
  | retires => exact ⟨(pops rfl).2, trivial⟩
  | leaves => exact ⟨(pops rfl).2, trivial⟩
  | catches =>
    refine ⟨(pops rfl).2, ?_⟩
    rintro rfl
    cases hs.1.serving _ rfl

theorem Thread.Apart.bears (h : Thread.Apart ⟨n, control, stack⟩) (hne : stack ≠ []) :
    beneath stack = stack ∧ Bears stack := by
  have heq : beneath stack = stack := beneath_eq h.stack
  exact ⟨heq, heq.symm ▸ hne, heq.symm ▸ h.stack⟩

/-- A step of a thread that reports something. -/
theorem Thread.Apart.reports (h : Thread.Apart ⟨n, control, stack⟩) (hr : control.isReport)
    (hm : w.move client t stack control = some m) :
    beneath stack = stack ∧ Bears stack ∧ ∃ sink kind label reason,
      control = .act (.report sink kind label reason) ∧
      m = ⟨{ w with nextSeq := w.nextSeq + 1 }, .deliver sink ⟨kind, label, reason, w.nextSeq⟩,
        stack⟩ := by
  cases control with
  | act due =>
    cases due with
    | report sink kind label reason =>
      cases hm
      obtain ⟨heq, hb⟩ := h.bears h.control
      exact ⟨heq, hb, sink, kind, label, reason, rfl, rfl⟩
    | _ => cases hr
  | _ => cases hr

theorem Thread.Heard.move (hc : client.Records view) (h : Thread.Heard view ⟨n, control, stack⟩)
    (hs : Stacked stack) (hm : w.move client t stack control = some m) :
    Thread.Heard view ⟨n, m.control, m.stack⟩ := by
  rcases h with ha | hreporting
  · cases hr : control.isReport with
    | true =>
      obtain ⟨-, hb, sink, kind, label, reason, -, rfl⟩ := ha.reports hr hm
      exact .inr (.delivers _ _ hb)
    | false => exact .inl ((World.move_stride hm).apart ha hs hr)
  · cases hr : Thread.isReporting (⟨n, control, stack⟩ : Thread M E K H) with
    | true => exact .inr (hreporting.step hc hr hm).1
    | false =>
      have ha : Thread.Apart ⟨n, control, stack⟩ := hreporting.apart hr
      exact .inl ((World.move_stride hm).apart ha hs hreporting.not_report)

/-! ## Runs -/

namespace World

/-- What holds of every exchange whose sinks only record. -/
structure Recorded (view : H → V) (w : World M E K H) : Prop extends w.Sound where
  heard : ∀ thread ∈ w.threads, thread.Heard view

theorem initial_recorded (host : H) : (initial host : World M E K H).Recorded view := by
  refine ⟨initial_sound host, ?_⟩
  intro thread hthread
  rw [List.mem_singleton.mp hthread]
  exact .inl (Thread.IsBare.apart trivial)

theorem Recorded.of_step (h : w.Recorded view) (hc : client.Records view)
    (ht : w.thread? t = some thread) (hs : w.step client t = some w') : w'.Recorded view := by
  obtain ⟨⟨m, hm, stepped⟩, -⟩ := step_stepped h.orderly ht hs
  have hmem := mem_of_thread? ht
  refine ⟨h.toSound.of_step ht hs (h.heard thread hmem).sinkPanics, ?_⟩
  intro other hother
  rcases stepped.succession.others_after hother with rfl | hbefore | hbare
  · exact (h.heard thread hmem).move hc (h.disciplined thread hmem).stacked hm
  · exact h.heard other hbefore
  · exact .inl hbare.apart

theorem Recorded.of_between (h : w.Recorded view) (hb : Between client w w') : w'.Recorded view := by
  obtain ⟨⟨-, come, gone, kept, hbefore, hafter, -, hcome⟩, -⟩ := between_interlude h.orderly hb
  refine ⟨h.toSound.of_between hb, ?_⟩
  intro other hother
  rcases List.mem_append.mp (hafter.mem_iff.mp hother) with hnew | hkept
  · exact .inl (hcome other hnew).apart
  · exact h.heard other (hbefore.mem_iff.mpr (List.mem_append_right _ hkept))

end World

/-- Sinks that only record return normally. -/
theorem Run.recorded {u : World M E K H} {trail : List (Moment M E K H)} (run : Run client u trail w)
    (hc : client.Records view) (hu : u.Recorded view) : w.Recorded view ∧ SinksReturn trail := by
  induction run with
  | refl => exact ⟨hu, by simp [SinksReturn]⟩
  | step _ ht hs ih =>
    obtain ⟨hw, hreturn⟩ := ih
    refine ⟨hw.of_step hc ht hs, sinksReturn_append.mpr ⟨hreturn, ?_⟩⟩
    intro m hm
    rw [List.mem_singleton.mp hm]
    exact (hw.heard _ (World.mem_of_thread? ht)).sinkPanics
  | between _ hb ih => exact ⟨ih.1.of_between hb, ih.2⟩

end Exchange
