import Exchange.Proofs.Chronicle

/-!
What is told of a run is done, and no callback is run that is not told of. A history is read off moments,
before their steps are taken; here the steps follow. A callback that is told of is the client's own code, which
the thread goes over to and which is given the very event that is told; a notice may cancel a task instead; a
diagnostic is on its way to its sink; and the phase of the point becomes what the happening makes of it.
-/

namespace Exchange
set_option autoImplicit false

variable {M E K H : Type} {client : Client M E K H} {w w' : World M E K H} {p t : Nat}
  {thread : Thread M E K H}

/-! ## Phases -/

/-- What the happening makes of the phase of its point. A call from inside a pass is put off, any other takes
effect at once; a pass that begins has given its event to nobody yet. -/
def Happening.Makes (phase phase' : Phase M E K) : Happening M E K → Prop
  | .registered id interest code => phase' = phase.join (.observer id interest code)
  | .unregistered id => phase' = (phase.postpone (.unregister id)).remove id
  | .awaited n notice .taken | .awaited n notice .putOff =>
    phase' = (phase.postpone (.ending n notice)).join (.ending n notice)
  | .pushed event _ => ∃ owner, phase' = (phase.postpone (.push event)).openPass owner event
  | .begun event entries =>
    ∃ owner queue, phase' = .dispatching owner { event, waiting := entries, queue }
  | .ended event entries => ∃ late, phase' = .ended ⟨event, entries, late⟩
  | .left _ stays => phase' = phase.advance stays
  | .dropped _ => phase' = phase.dropLate
  | _ => phase' = phase

theorem Happening.IsAside.makes {happening : Happening M E K} (h : happening.IsAside)
    (phase : Phase M E K) : happening.Makes phase phase := by
  rcases h.eq with ⟨_, _, rfl⟩ | ⟨_, _, rfl⟩ | ⟨_, _, _, rfl⟩ | ⟨_, _, rfl⟩ <;> rfl

theorem Change.makes {s s' : Standing M E K} {happenings : List (Happening M E K)}
    (h : Change s happenings s') : ∀ happening ∈ happenings, happening.Makes s.phase s'.phase := by
  cases h with
  | aside haside => simpa using haside.makes _
  | unregisters id hheld => simp [Happening.Makes, Phase.postpone, Phase.remove, hheld]
  | unregistersLast id hfree => simp [Happening.Makes, Phase.postpone, Phase.remove, hfree]
  | pushes t event => simp [Happening.Makes, Phase.postpone, Phase.openPass]
  | @gives _ _ _ entry => cases entry <;> simp [Entry.given, Happening.Makes]
  | goesOn _ hcommit =>
    obtain ⟨-, -, rfl, event, later, -, rfl⟩ := Pass.commit_dispatching hcommit
    simp [Happening.Makes]
  | ends => exact List.forall_mem_singleton.mpr ⟨_, rfl⟩
  | _ =>
    simp [Happening.Makes, Phase.postpone, Phase.join, Phase.remove, Phase.openPass, Phase.dropLate]

/-! ## Callbacks and reports -/

/-- Whatever callback or report the happening tells of, the step from `w` to `w'` goes over to it. -/
def Happening.Runs (client : Client M E K H) (p : Nat) (w w' : World M E K H)
    (control : Control M E K H) : Happening M E K → Prop
  | .presented _ code event _ => (Act.present code event).LeadsTo client w w' control
  | .notified ticket notice _ => (Act.notify ticket notice).LeadsTo client w w' control
  | .reported kind reason =>
    ∃ sink, (Act.report sink kind (some (Point.label p)) reason).LeadsTo client w w' control
  | _ => True

theorem World.does_runs {top : Option (Frame M E K H)} {act : Act M E K} {control : Control M E K H}
    (hleads : act.LeadsTo client w w' control) :
    ∀ happening ∈ w.does p top act, happening.Runs client p w w' control := by
  cases act with
  | report sink kind label reason =>
    simp only [does]
    split
    · rename_i hlabel
      subst hlabel
      simpa [Happening.Runs] using ⟨sink, hleads⟩
    · simp
  | present code event =>
    simp only [does]
    repeat' split
    all_goals simp [Happening.Runs, hleads]
  | notify ticket notice =>
    simp only [does]
    repeat' split
    all_goals simp [Happening.Runs, hleads]
  | _ => simp [does]

/-! ## Moments and trails -/

/-- The callback of which the happening tells. -/
def Happening.callback? : Happening M E K → Option (Act M E K)
  | .presented _ code event _ => some (.present code event)
  | .notified ticket notice _ => some (.notify ticket notice)
  | _ => none

@[simp] theorem Entry.callback?_given (entry : Entry K) (event : Event M E) (occasion : Occasion) :
    (entry.given event occasion).callback? = some (entry.act event) := by
  cases entry <;> rfl

/-- A callback that is run is told of. -/
def Moment.IsTold (m : Moment M E K H) : Prop :=
  ∀ act, m.thread.control = .act act → act.IsCallback →
    ∃ p, ∃ happening ∈ m.happenings p, happening.callback? = some act

/-- What the thread is about to do, and what is told of point `p`, is what the step does. -/
def Moment.IsDone (client : Client M E K H) (p : Nat) (m : Moment M E K H) : Prop :=
  ∃ w' control stack, m.world.step client m.thread.id = some w' ∧
    w'.thread? m.thread.id = some ⟨m.thread.id, control, stack⟩ ∧
    (∀ act, m.thread.control = .act act →
      act.LeadsTo client m.world w' control ∧ stack = m.thread.stack) ∧
    ∀ happening ∈ m.happenings p, happening.Makes (m.world.phase p) (w'.phase p) ∧
      happening.Runs client p m.world w' control

/-- All along the trail that is so: so whatever callback its history tells of is run, with that event, and
no other is run. -/
def Enacted (client : Client M E K H) (p : Nat) (trail : List (Moment M E K H)) : Prop :=
  ∀ m ∈ trail, m.IsTold ∧ m.IsDone client p

@[simp] theorem enacted_append {first second : List (Moment M E K H)} :
    Enacted client p (first ++ second) ↔ Enacted client p first ∧ Enacted client p second :=
  List.forall_mem_append

/-- A callback that a call itself owes is told of. -/
theorem Moment.told_of_acts {n : Nat} {act : Act M E K} {todo : List (Act M E K)} {answer : Reply M K}
    {stack : List (Frame M E K H)} (h : act.IsCallback) :
    ∃ happening ∈ Moment.happenings p ⟨w, ⟨n, .act act, .acts p todo answer :: stack⟩⟩,
      happening.callback? = some act := by
  cases act with
  | present code event => exact ⟨.presented 0 code event .call, by simp [happenings, World.does], rfl⟩
  | notify ticket notice => exact ⟨.notified ticket notice .call, by simp [happenings, World.does], rfl⟩
  | _ => exact h.elim

/-- And so is one that the entry whose turn it is has run. -/
theorem Moment.told_of_delivering {n : Nat} {entry : Entry K} {event : Event M E}
    {stack : List (Frame M E K H)} (hdue : (w.phase p).due = some (entry, event)) :
    ∃ happening ∈ Moment.happenings p ⟨w, ⟨n, .act (entry.act event), .delivering p :: stack⟩⟩,
      happening.callback? = some (entry.act event) := by
  refine ⟨entry.given event (w.phase p).occasion, ?_, entry.callback?_given event _⟩
  simp [happenings, World.does_given hdue]

theorem World.Sound.told (hw : w.Sound) (hstands : ∀ p, ∃ s, w.Stands p s)
    (ht : w.thread? t = some thread) : Moment.IsTold ⟨w, thread⟩ := by
  intro act hact hcallback
  have hmem := mem_of_thread? ht
  have hfits := (hw.disciplined thread hmem).fits
  obtain ⟨n, control, stack⟩ := thread
  obtain rfl : control = .act act := hact
  obtain ⟨-, -, -, hframe⟩ := hfits
  obtain ⟨frame, htop, hback⟩ := hframe hcallback
  obtain ⟨below, rfl⟩ := List.head?_eq_some_iff.mp htop
  cases frame with
  | acts p todo answer => exact ⟨p, Moment.told_of_acts hcallback⟩
  | delivering p =>
    obtain ⟨s, stands⟩ := hstands p
    obtain ⟨-, ⟨-, entry, event, hdue, hcontrol⟩ | ⟨-, hact⟩⟩ :=
      stands.delivers hw.orderly hmem rfl
    · cases hcontrol
      exact ⟨p, Moment.told_of_delivering hdue⟩
    · exact absurd rfl (hact act)
  | _ => exact hback.elim

theorem World.Stepped.leadsTo {m : Move M E K H} (h : Stepped client t thread w m w') {act : Act M E K}
    (hact : thread.control = .act act) :
    act.LeadsTo client w w' m.control ∧ m.stack = thread.stack := by
  obtain ⟨_, rfl⟩ := h.rest
  obtain ⟨-, hleads, hstack⟩ := (hact ▸ h.stride).of_act
  exact ⟨hleads, hstack⟩

theorem World.Stands.done {s : Standing M E K} (stands : w.Stands p s) (hw : w.Sound) (hc : s.Coherent)
    (ht : w.thread? t = some thread) (hstep : w.step client t = some w') :
    Moment.IsDone client p ⟨w, thread⟩ := by
  obtain ⟨s', hchange, stands'⟩ := stands.of_step hw hc ht hstep
  obtain ⟨⟨m, -, stepped⟩, ho⟩ := step_stepped hw.orderly ht hstep
  obtain rfl := stepped.id
  refine ⟨w', m.control, m.stack, hstep, ho.thread?_eq stepped.succession.mem_after,
    fun _ => stepped.leadsTo, ?_⟩
  intro happening hmem
  constructor
  · rw [← stands.phase_eq, ← stands'.phase_eq]
    exact hchange.makes happening hmem
  · cases hdeed : happening.isDeed with
    | true =>
      obtain ⟨act, hact, hdoes⟩ := Moment.act_of_deed hmem hdeed
      exact does_runs (stepped.leadsTo hact).1 happening hdoes
    | false => cases happening <;> trivial

/-- In a run whose sinks return normally all that is told is done, and all callbacks are told of. -/
theorem Run.enacted {host : H} {trail : List (Moment M E K H)} (run : Run client (.initial host) trail w)
    (hr : SinksReturn trail) (p : Nat) : Enacted client p trail := by
  intro m hm
  obtain ⟨before, after, rfl⟩ := List.append_of_mem hm
  obtain ⟨hbefore, t, v, ht, hstep, -⟩ := run.split rfl
  obtain ⟨hr, -⟩ := sinksReturn_append.mp hr
  have hsound := hbefore.sound (World.initial_sound host) hr
  constructor
  · apply hsound.told _ ht
    intro q
    obtain ⟨s, -, stands⟩ := hbefore.course_of_initial hr q
    exact ⟨s, stands⟩
  · obtain ⟨s, course, stands⟩ := hbefore.course_of_initial hr p
    exact stands.done hsound (course.coherent Standing.initial_coherent) ht hstep

theorem Run.enacted_later {host : H} {trail during : List (Moment M E K H)}
    (run : Run client (.initial host) trail w) (later : Run client w during w') (hr : SinksReturn trail)
    (hr' : SinksReturn during) (p : Nat) : Enacted client p during := by
  have whole := (run.trans later).enacted (sinksReturn_append.mpr ⟨hr, hr'⟩) p
  exact (enacted_append.mp whole).2

end Exchange
