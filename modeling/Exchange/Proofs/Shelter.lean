import Exchange.Proofs.Endings

/-!
What a binding does at a producer's end is out of reach of panics: above its acts there are only
pushes and reports, and these go on or return. So a turn that has come to an end is concluded.
-/

namespace Exchange
set_option autoImplicit false

variable {M E K H : Type} {client : Client M E K H} {w w' : World M E K H} {t n : Nat}
  {thread : Thread M E K H}
variable {control : Control M E K H} {stack rest : List (Frame M E K H)} {m : Move M E K H}
variable {frame : Frame M E K H}

/-- The act does not panic unless a bare sink does. -/
def Act.IsQuiet : Act M E K → Prop
  | .report _ _ _ _ | .cancel _ | .call (.push _ _) => True
  | _ => False

/-- The acts of a binding, down to its turn, and those of a push that comes too late. -/
inductive Sheltered : List (Frame M E K H) → Prop
  | announcing (t : Nat) (code : K) : Sheltered [.turn t (.announcing code)]
  | closing (t : Nat) (outcome : Outcome) : Sheltered [.turn t (.closing outcome)]
  | acts {p : Nat} {todo : List (Act M E K)} {answer : Reply M K} {stack : List (Frame M E K H)} :
      (∀ act ∈ todo, act.IsQuiet) → Sheltered stack → Sheltered (.acts p todo answer :: stack)

/-- The frame of a push or of a report. -/
def Frame.IsScreen : Frame M E K H → Prop
  | .serving _ | .receiving | .fanOut _ _ _ _ => True
  | _ => False

/-- Right above such acts there are only pushes and reports. -/
def Secure : List (Frame M E K H) → Prop
  | [] => True
  | frame :: stack => (Sheltered stack → frame.IsScreen ∨ Sheltered (frame :: stack)) ∧ Secure stack

def Control.IsSecure : Control M E K H → Prop
  | .resume _ | .deliver _ _ | .perform (.push _ _) => True
  | .act due => due.IsQuiet
  | _ => False

structure Thread.Secure (thread : Thread M E K H) : Prop where
  stack : Exchange.Secure thread.stack
  control : Sheltered thread.stack → thread.control.IsSecure

theorem Frame.IsScreen.not_sheltered (h : frame.IsScreen) : ¬Sheltered (frame :: stack) := by
  intro hs
  cases hs <;> exact h

theorem sheltered_of_cons (h : Sheltered (frame :: stack)) (hf : frame.isTurn = false) :
    Sheltered stack := by
  cases h with
  | announcing => cases hf
  | closing => cases hf
  | acts _ hs => exact hs

theorem Frame.IsFanOut.isScreen (h : frame.IsFanOut) : frame.IsScreen := by
  cases frame <;> simp_all [Frame.IsFanOut, Frame.IsScreen]

theorem secure_fanOut {frames : List (Frame M E K H)} (hf : ∀ frame ∈ frames, frame.IsFanOut)
    (hs : Secure stack) : Secure (frames ++ stack) := by
  induction frames with
  | nil => exact hs
  | cons frame frames ih =>
    refine ⟨fun _ => .inl (hf frame List.mem_cons_self).isScreen, ih ?_⟩
    intro other hother
    exact hf other (List.mem_cons_of_mem _ hother)

/-! ## The binding's own acts -/

theorem quiet_closing (task : Task K) (ending : Ending M K) :
    ∀ act ∈ ending.acts client t task, act.IsQuiet := by
  cases ending <;>
    simp [Ending.acts, Ending.outcome, Ending.report, Ending.response, Act.IsQuiet]

namespace World
variable {task : Task K}

theorem close_secure (ending : Ending M K) :
    Thread.Secure ⟨n, (w.close client [] t task ending).control,
      (w.close client [] t task ending).stack⟩ := by
  have hs : Sheltered ([.turn t (.closing ending.outcome)] : List (Frame M E K H)) := .closing t _
  exact ⟨⟨fun _ => .inr (.acts (quiet_closing task ending) hs), nofun, trivial⟩, fun _ => trivial⟩

/-- A turn in which code runs, or that is over. -/
theorem secure_of_code {stage : Stage K} (hs : stage.runsCode) :
    Thread.Secure ⟨n, control, [.turn t stage]⟩ := by
  refine ⟨⟨nofun, trivial⟩, ?_⟩
  intro h
  cases h <;> cases hs

theorem secure_nil : Thread.Secure (⟨n, control, []⟩ : Thread M E K H) := ⟨trivial, nofun⟩

theorem Asked.secure {producer : K} (h : Asked client w [] t task producer m) :
    Thread.Secure ⟨n, m.control, m.stack⟩ := by
  cases h with
  | cancelled => exact close_secure _
  | polls => exact secure_of_code rfl

theorem Turned.secure {stage : Stage K} (h : Turned client w t task stage control m) :
    Thread.Secure ⟨n, m.control, m.stack⟩ := by
  cases h with
  | asks hasked => exact hasked.secure
  | parks => exact secure_nil
  | announces failure =>
    have hs : Sheltered ([.turn t (.announcing failure.respond)] : List (Frame M E K H)) :=
      .announcing t _
    refine ⟨⟨fun _ => .inr (.acts ?_ hs), nofun, trivial⟩, fun _ => trivial⟩
    simp [Task.announcement, Task.report, Act.IsQuiet]
  | renders => exact secure_of_code rfl
  | closes => exact close_secure _
  | concludes => exact secure_nil
  | strays => exact secure_nil
  | escapes => exact secure_nil

theorem Scheduled.secure (h : Scheduled client w thread) : thread.Secure := by
  cases h with
  | code => exact secure_nil
  | turn _ hbegun =>
    cases hbegun with
    | passes => exact secure_nil
    | starts => exact secure_of_code rfl
    | asks _ _ hasked => exact hasked.secure

/-- What a turn does with what has come back to it. -/
theorem turn_turned {stage : Stage K}
    (hm : w.move client n [.turn t stage] control = some m) (hc : control.IsReturn)
    (ht : w.tasks[t]? = some task) : Turned client w t task stage control m := by
  cases control with
  | resume reply =>
    cases hm
    simp only [resume, ht]
    exact resumeTurn_turned stage reply
  | unwind payload =>
    cases hm
    simp only [unwind, ht]
    exact unwindTurn_turned stage payload
  | _ => exact hc.elim

theorem turn_secure {stage : Stage K} (hm : w.move client n [.turn t stage] control = some m)
    (hc : control.IsReturn) : Thread.Secure ⟨n, m.control, m.stack⟩ := by
  cases ht : w.tasks[t]? with
  | some task => exact (turn_turned hm hc ht).secure
  | none =>
    cases control with
    | resume reply =>
      cases hm
      simp only [resume, ht]
      exact secure_nil
    | unwind payload =>
      cases hm
      simp only [unwind, ht]
      exact secure_nil
    | _ => exact hc.elim

/-- What a push comes to: it is put off, opens a pass, or is too late. -/
theorem push_moves {p : Nat} {event : Event M E}
    (hm : w.perform client n stack (.push p event) = some m) :
    m.control = .resume .done ∧ (m.stack = stack ∨ m.stack = .serving p :: stack ∨
      ∃ point, m.stack = .acts p [Point.report p point .lateEvent (some event.lateName)] .done :: stack) := by
  simp only [perform] at hm
  split at hm
  · rename_i point hp
    unfold push at hm
    split at hm
    · cases hm
    · cases hm
      exact ⟨rfl, .inl rfl⟩
    · split at hm <;> cases hm
      · exact ⟨rfl, .inr (.inr ⟨point, rfl⟩)⟩
      · exact ⟨rfl, .inr (.inl rfl)⟩
  · cases hm
    exact ⟨rfl, .inl rfl⟩

/-- A step right above the binding's acts. -/
theorem sheltered_secure (hm : w.move client n stack control = some m)
    (h : Thread.Secure ⟨n, control, stack⟩) (hs : Sheltered stack) :
    Thread.Secure ⟨n, m.control, m.stack⟩ := by
  have hstack : Secure stack := h.stack
  have hcontrol : control.IsSecure := h.control hs
  have screened {frame : Frame M E K H} (hf : frame.IsScreen) (control : Control M E K H) :
      Thread.Secure ⟨n, control, frame :: stack⟩ :=
    ⟨⟨fun _ => .inl hf, hstack⟩, fun h => absurd h hf.not_sheltered⟩
  cases control with
  | resume reply =>
    cases hs with
    | announcing => exact turn_secure hm trivial
    | closing => exact turn_secure hm trivial
    | @acts p todo answer rest hquiet hs =>
      cases hm
      cases todo with
      | nil => exact ⟨hstack.2, fun _ => trivial⟩
      | cons first todo =>
        refine ⟨⟨fun _ => .inr (.acts ?_ hs), hstack.2⟩, ?_⟩
        · intro act hact
          exact hquiet act (List.mem_cons_of_mem _ hact)
        · intro _
          exact hquiet first List.mem_cons_self
  | deliver sink diagnostic =>
    cases hm
    cases sink with
    | client name code => exact screened (by trivial) _
    | recorder => exact ⟨hstack, fun _ => trivial⟩
    | set members => exact screened (by trivial) _
  | act due =>
    cases hm
    cases due with
    | report => exact ⟨hstack, fun _ => trivial⟩
    | cancel => exact ⟨hstack, fun _ => trivial⟩
    | call op =>
      cases op with
      | push => exact ⟨hstack, fun _ => trivial⟩
      | _ => exact hcontrol.elim
    | _ => exact hcontrol.elim
  | perform op =>
    cases op with
    | push p event =>
      have hpush : w.perform client n stack (.push p event) = some m := hm
      obtain ⟨hreply, hmoved | hmoved | ⟨point, hmoved⟩⟩ := push_moves hpush
      · rw [hreply, hmoved]
        exact ⟨hstack, fun _ => trivial⟩
      · rw [hmoved]
        exact screened (by trivial) _
      · rw [hreply, hmoved]
        refine ⟨⟨fun _ => .inr (.acts ?_ hs), hstack⟩, fun _ => trivial⟩
        simp [Point.report, Act.IsQuiet]
    | _ => exact hcontrol.elim
  | _ => exact hcontrol.elim

/-- A step elsewhere: what comes back to such acts is a reply. -/
theorem secure_elsewhere (hm : w.move client n stack control = some m)
    (hd : Thread.Disciplined ⟨n, control, stack⟩) (hrooted : Exchange.Rooted stack)
    (hr : Thread.sinkPanics (⟨n, control, stack⟩ : Thread M E K H) = false)
    (h : Thread.Secure ⟨n, control, stack⟩) (hs : ¬Sheltered stack) :
    Thread.Secure ⟨n, m.control, m.stack⟩ := by
  have hstack : Secure stack := h.stack
  have same (control : Control M E K H) : Thread.Secure ⟨n, control, stack⟩ :=
    ⟨hstack, fun h => absurd h hs⟩
  have pushed {frame : Frame M E K H} (hf : frame.isTurn = false) (control : Control M E K H) :
      Thread.Secure ⟨n, control, frame :: stack⟩ :=
    ⟨⟨fun h => absurd h hs, hstack⟩, fun h => absurd (sheltered_of_cons h hf) hs⟩
  -- nothing but a screen stands right above such acts
  have below {frame : Frame M E K H} {rest : List (Frame M E K H)} (heq : stack = frame :: rest)
      (hf : ¬frame.IsScreen) : ¬Sheltered rest := by
    subst heq
    intro hrest
    exact (hstack.1 hrest).elim hf hs
  cases move_stride hm with
  | returns => exact same _
  | panics => exact same _
  | changes => exact same _
  | answers => exact same _
  | emits => exact same _
  | forks => exact same _
  | forksAndWaits => exact same _
  | joins => exact same _
  | joinsPanic => exact same _
  | acts => exact same _
  | records => exact same _
  | advances => exact same _
  | drops => exact same _
  | calls => exact pushed rfl _
  | owes => exact pushed rfl _
  | serves => exact pushed rfl _
  | attempts => exact pushed rfl _
  | tells => exact pushed rfl _
  | fansOut hf => exact pushed hf.isTurn _
  | gives => exact pushed rfl _
  | goesOn => exact ⟨hstack.2, fun h => absurd h (below rfl id)⟩
  | handsOn _ _ _ hf =>
    exact ⟨⟨fun _ => .inl hf.isScreen, hstack.2⟩, fun h => absurd h hf.isScreen.not_sheltered⟩
  | fansOn frames _ _ _ hf => exact ⟨secure_fanOut hf hstack.2, fun _ => trivial⟩
  | runsOn _ _ hreturn =>
    obtain rfl := hrooted.1 rfl
    exact turn_secure hm hreturn
  | closes _ hreturn =>
    obtain rfl := hrooted.1 rfl
    exact turn_secure hm hreturn
  | pops => exact ⟨hstack.2, fun _ => trivial⟩
  | @unwinds rest frame payload hnot hfan =>
    refine ⟨hstack.2, ?_⟩
    intro hrest
    have hscreen : frame.IsScreen := (hstack.1 hrest).resolve_right hs
    cases frame with
    | serving p => exact absurd trivial (hd.fits _ rfl)
    | receiving => cases hrest <;> cases hr
    | fanOut => exact absurd trivial hfan
    | _ => exact hscreen.elim
  | settles => exact ⟨hstack.2, fun _ => trivial⟩
  | proceeds =>
    have hrest := below rfl id
    exact ⟨⟨fun h => absurd h hrest, hstack.2⟩, fun h => absurd (sheltered_of_cons h rfl) hrest⟩
  | retires => exact ⟨hstack.2, fun _ => trivial⟩
  | leaves => exact ⟨hstack.2, fun _ => trivial⟩
  | catches => exact ⟨hstack.2, fun h => absurd h (below rfl id)⟩

/-! ## Runs -/

/-- What holds of every exchange whose sinks return normally, of its turns above all. -/
structure Settled (w : World M E K H) : Prop extends w.Sound where
  rooted : w.Rooted
  secure : ∀ thread ∈ w.threads, thread.Secure

theorem initial_settled (host : H) : (initial host : World M E K H).Settled := by
  refine ⟨initial_sound host, initial_rooted host, ?_⟩
  intro thread hthread
  rw [List.mem_singleton.mp hthread]
  exact secure_nil

theorem Settled.of_step (h : w.Settled) (ht : w.thread? n = some thread)
    (hs : w.step client n = some w') (hr : thread.sinkPanics = false) : w'.Settled := by
  obtain ⟨⟨m, hm, stepped⟩, -⟩ := step_stepped h.orderly ht hs
  obtain rfl : thread.id = n := stepped.id
  have hmem := mem_of_thread? ht
  refine ⟨h.toSound.of_step ht hs hr, h.rooted.of_step h.orderly ht hs, ?_⟩
  intro other hother
  rcases stepped.succession.others_after hother with rfl | hbefore | hbare
  · by_cases hsheltered : Sheltered thread.stack
    · exact sheltered_secure hm (h.secure thread hmem) hsheltered
    · exact secure_elsewhere hm (h.disciplined thread hmem) (h.rooted.last thread hmem) hr
        (h.secure thread hmem) hsheltered
  · exact h.secure other hbefore
  · obtain ⟨id, control, stack⟩ := other
    obtain rfl : stack = [] := hbare.stack_eq
    exact secure_nil

theorem Settled.of_between (h : w.Settled) (hb : Between client w w') : w'.Settled := by
  refine ⟨h.toSound.of_between hb, h.rooted.of_between hb, ?_⟩
  intro other hother
  rcases between_threads hb hother with hbefore | hscheduled
  · exact h.secure other hbefore
  · exact hscheduled.secure

end World

theorem Run.settled {u : World M E K H} {trail : List (Moment M E K H)} (run : Run client u trail w)
    (hu : u.Settled) (hs : SinksReturn trail) : w.Settled := by
  induction run with
  | refl => exact hu
  | step _ ht hstep ih =>
    obtain ⟨hs, hlast⟩ := sinksReturn_append.mp hs
    exact (ih hs).of_step ht hstep (hlast _ List.mem_cons_self)
  | between _ hb ih => exact (ih hs).of_between hb

end Exchange
