import Exchange.Proofs.Threads

/-!
Where a panic cannot come. A call that serves a point, or that has callbacks and reports left to do,
has only deliveries and sinks above it; a delivery catches the panics of its callback, and sinks
return normally. So no panic ever reaches such a frame.
-/

namespace Exchange
set_option autoImplicit false

variable {M E K H : Type} {client : Client M E K H} {w w' : World M E K H} {t : Nat}
  {thread : Thread M E K H}
variable {control : Control M E K H} {stack : List (Frame M E K H)} {m : Move M E K H}

namespace Frame

/-- The frame has to go on where it stands. -/
def IsSteady : Frame M E K H → Prop
  | .serving _ => True
  | .acts _ todo _ => ∃ act ∈ todo, act.IsDue
  | _ => False

/-- The frame stands above a steady one and keeps panics from it. -/
def IsShield : Frame M E K H → Prop
  | .delivering _ | .receiving | .fanOut _ _ _ _ => True
  | _ => False

/-- Callbacks are run above the frame. -/
def CallsBack : Frame M E K H → Prop
  | .delivering _ | .acts _ _ _ => True
  | _ => False

/-- The frame can stand above another, or at the bottom. -/
structure Fits (above : Frame M E K H) (below : Option (Frame M E K H)) : Prop where
  serving : ∀ p, above = .delivering p → below = some (.serving p)
  steady : ∀ frame, below = some frame → frame.IsSteady → above.IsShield

def IsNeat : Frame M E K H → Prop
  | .acts _ todo _ => Neat todo
  | _ => True

end Frame

/-- Each frame of the stack fits the one below. -/
def Stacked : List (Frame M E K H) → Prop
  | [] => True
  | frame :: stack => frame.Fits stack.head? ∧ frame.IsNeat ∧ Stacked stack

/-- Every delivery stands on the call that makes it. -/
def Seated : List (Frame M E K H) → Prop
  | [] => True
  | frame :: stack => (∀ p, frame = .delivering p → stack.head? = some (.serving p)) ∧ Seated stack

theorem Stacked.seated (h : Stacked stack) : Seated stack := by
  induction stack with
  | nil => trivial
  | cons frame stack ih =>
    obtain ⟨hfits, -, hstack⟩ := h
    exact ⟨hfits.serving, ih hstack⟩

/-- What a thread can be about to do above a frame. -/
def Control.Fits (top : Option (Frame M E K H)) : Control M E K H → Prop
  | .eval _ | .unwind _ | .await _ => ∀ frame, top = some frame → ¬frame.IsSteady
  | .perform _ =>
    (∀ frame, top = some frame → ¬frame.IsSteady) ∧ ∀ p, top ≠ some (.delivering p)
  | .act due =>
    (∀ frame, top = some frame → frame.IsSteady → due.IsGentle) ∧
      (∀ p, top = some (.delivering p) → ∀ op, due ≠ .call op) ∧
      (∀ p todo answer code event, top = some (.acts p todo answer) → due = .present code event →
        event = .tombstone) ∧
      (due.IsCallback → ∃ frame, top = some frame ∧ frame.CallsBack)
  | .deliver _ _ | .resume _ => True

structure Thread.Disciplined (thread : Thread M E K H) : Prop where
  stacked : Stacked thread.stack
  fits : thread.control.Fits thread.stack.head?

def World.Disciplined (w : World M E K H) : Prop := ∀ thread ∈ w.threads, thread.Disciplined

namespace Frame
variable {frame : Frame M E K H} {below : Option (Frame M E K H)}

theorem fits_of_not_steady (hd : ∀ p, frame ≠ .delivering p)
    (hb : ∀ other, below = some other → ¬other.IsSteady) : frame.Fits below := by
  constructor
  · intro p h
    exact absurd h (hd p)
  · intro other h hs
    exact absurd hs (hb other h)

theorem fits_of_shield (hd : ∀ p, frame ≠ .delivering p) (hs : frame.IsShield) :
    frame.Fits below := by
  constructor
  · intro p h
    exact absurd h (hd p)
  · intro _ _ _
    exact hs

theorem Fits.not_steady (hf : frame.Fits below) (hn : ¬frame.IsShield) :
    ∀ other, below = some other → ¬other.IsSteady := by
  intro other h hs
  exact hn (hf.steady other h hs)

theorem IsFanOut.isShield (h : frame.IsFanOut) : frame.IsShield := by
  cases frame <;> simp_all [IsFanOut, IsShield]

theorem IsFanOut.fits (h : frame.IsFanOut) : frame.Fits below := by
  refine fits_of_shield ?_ h.isShield
  rintro p rfl
  exact h

theorem IsFanOut.isNeat (h : frame.IsFanOut) : frame.IsNeat := by
  cases frame <;> simp_all [IsFanOut, IsNeat]

end Frame

theorem stacked_fanOut {frames : List (Frame M E K H)} (hf : ∀ frame ∈ frames, frame.IsFanOut)
    (hs : Stacked stack) : Stacked (frames ++ stack) := by
  induction frames with
  | nil => exact hs
  | cons frame frames ih =>
    have hframe := hf frame List.mem_cons_self
    refine ⟨hframe.fits, hframe.isNeat, ih ?_⟩
    intro other hother
    exact hf other (List.mem_cons_of_mem _ hother)

/-- Below a sink's frame from which a panic comes there is a set of sinks. -/
theorem Thread.not_steady_of_sinkPanics {n : Nat} {payload : Payload}
    (h : Thread.sinkPanics (⟨n, .unwind payload, .receiving :: stack⟩ : Thread M E K H) = false) :
    ∀ frame, stack.head? = some frame → ¬frame.IsSteady := by
  intro frame hframe
  cases stack with
  | nil => cases hframe
  | cons below rest =>
    cases hframe
    cases frame <;> simp_all [Thread.sinkPanics, Frame.IsSteady]

/-- A step keeps the discipline, unless it is a sink that panics. -/
theorem Stride.disciplined (h : Stride client w t control stack m) {n : Nat}
    (hd : Thread.Disciplined ⟨n, control, stack⟩)
    (hs : Thread.sinkPanics (⟨n, control, stack⟩ : Thread M E K H) = false) :
    Thread.Disciplined ⟨n, m.control, m.stack⟩ := by
  obtain ⟨hstack, hfits⟩ := hd
  dsimp only at hstack hfits
  cases h with
  | returns => exact ⟨hstack, trivial⟩
  | panics => exact ⟨hstack, hfits⟩
  | changes => exact ⟨hstack, hfits⟩
  | calls =>
    refine ⟨⟨Frame.fits_of_not_steady (by simp) hfits, trivial, hstack⟩, ?_⟩
    simp [Control.Fits, Frame.IsSteady]
  | answers => exact ⟨hstack, trivial⟩
  | owes _ _ hneat => exact ⟨⟨Frame.fits_of_not_steady (by simp) hfits.1, hneat, hstack⟩, trivial⟩
  | serves => exact ⟨⟨Frame.fits_of_not_steady (by simp) hfits.1, trivial, hstack⟩, trivial⟩
  | emits => exact ⟨hstack, by simp [Control.Fits, Act.IsGentle, Act.IsCallback]⟩
  | attempts =>
    refine ⟨⟨Frame.fits_of_not_steady (by simp) hfits.1, trivial, hstack⟩, ?_⟩
    simp [Control.Fits, Frame.IsSteady]
  | forks => exact ⟨hstack, trivial⟩
  | forksAndWaits => exact ⟨hstack, hfits.1⟩
  | joins => exact ⟨hstack, trivial⟩
  | joinsPanic => exact ⟨hstack, hfits⟩
  | @acts act _ _ next _ hleads =>
    refine ⟨hstack, ?_⟩
    have steady (hg : ¬act.IsGentle) (frame : Frame M E K H) (h : stack.head? = some frame) :
        ¬frame.IsSteady := by
      intro hs
      exact hg (hfits.1 frame h hs)
    rcases hleads.control_cases with ⟨_, _, _, _, -, rfl⟩ | rfl | ⟨hungentle, ⟨_, rfl⟩ | ⟨op, rfl, rfl⟩⟩
    · exact trivial
    · exact trivial
    · exact steady hungentle
    · refine ⟨steady hungentle, ?_⟩
      intro p h
      exact hfits.2.1 p h _ rfl
  | tells =>
    refine ⟨⟨Frame.fits_of_shield (by simp) trivial, trivial, hstack⟩, ?_⟩
    simp [Control.Fits, Frame.IsSteady]
  | records => exact ⟨hstack, trivial⟩
  | fansOut hf => exact ⟨⟨hf.fits, hf.isNeat, hstack⟩, trivial⟩
  | goesOn => exact ⟨hstack.2.2, hstack.1.not_steady id⟩
  | handsOn _ _ _ hf => exact ⟨⟨hf.fits, hf.isNeat, hstack.2.2⟩, trivial⟩
  | fansOn _ _ _ _ hf => exact ⟨stacked_fanOut hf hstack.2.2, trivial⟩
  | runsOn =>
    refine ⟨⟨Frame.fits_of_not_steady (by simp) (hstack.1.not_steady id), trivial, hstack.2.2⟩, ?_⟩
    simp [Control.Fits, Frame.IsSteady]
  | closes _ _ _ hneat =>
    refine ⟨⟨Frame.fits_of_not_steady (by simp) (by simp [Frame.IsSteady]), hneat, ?_⟩, trivial⟩
    exact ⟨Frame.fits_of_not_steady (by simp) (hstack.1.not_steady id), trivial, hstack.2.2⟩
  | pops => exact ⟨hstack.2.2, trivial⟩
  | @unwinds _ frame payload hnot hfan =>
    refine ⟨hstack.2.2, ?_⟩
    by_cases hshield : frame.IsShield
    · cases frame <;> simp_all [Frame.IsShield, Frame.IsFanOut]
      exact Thread.not_steady_of_sinkPanics hs
    · exact hstack.1.not_steady hshield
  | settles => exact ⟨hstack.2.2, trivial⟩
  | proceeds =>
    obtain ⟨hfit, ⟨hgentle, htomb⟩, hrest⟩ := hstack
    obtain ⟨hfirst, hgentle⟩ := List.pairwise_cons.mp hgentle
    refine ⟨⟨Frame.fits_of_not_steady (by simp) (hfit.not_steady id), ⟨hgentle, ?_⟩, hrest⟩,
      ?_, by simp, ?_, fun _ => ⟨_, rfl, trivial⟩⟩
    · intro code event h
      exact htomb code event (List.mem_cons_of_mem _ h)
    · rintro frame ⟨⟩ ⟨act, hact, hdue⟩
      exact hfirst act hact hdue
    · rintro _ _ _ code event ⟨⟩ rfl
      exact htomb code event List.mem_cons_self
  | gives entry event =>
    refine ⟨⟨⟨by rintro q ⟨⟩; rfl, fun _ _ _ => trivial⟩, trivial, hstack⟩, ?_, ?_, by simp,
      fun _ => ⟨_, rfl, trivial⟩⟩
    · rintro frame ⟨⟩ hsteady
      exact hsteady.elim
    · cases entry <;> simp [Entry.act]
  | advances => exact ⟨hstack, trivial⟩
  | drops => exact ⟨hstack, by simp [Control.Fits, Act.IsGentle, Act.IsCallback]⟩
  | retires => exact ⟨hstack.2.2, trivial⟩
  | leaves => exact ⟨hstack.2.2, trivial⟩
  | catches => exact ⟨hstack.2.2, by simp [Control.Fits, Act.IsGentle, Act.IsCallback]⟩

/-- The frames that come and go in a step, above the rest of the stack. -/
structure Shape (control : Control M E K H) (stack : List (Frame M E K H)) (m : Move M E K H)
    (gone come rest : List (Frame M E K H)) : Prop where
  before : stack = gone ++ rest
  after : m.stack = come ++ rest
  popped : gone = [] ∨ control.IsReturn ∧ ∃ frame, gone = [frame]
  pushed : ∀ p, Clear p gone → (∀ op, control ≠ .perform op) → Clear p come
  act : come = [] → ∀ due, m.control = .act due →
    (∃ op, control = .perform op) ∨ ∃ q, rest.head? = some (.serving q)
  perform : come = [] → ∀ op, m.control = .perform op → gone = []

/-- A step touches just the uppermost frame. -/
theorem Stride.shape (h : Stride client w t control stack m) (hs : Seated stack) :
    ∃ gone come rest, Shape control stack m gone come rest := by
  cases h with
  | calls => exact ⟨[], [_], _, rfl, rfl, .inl rfl, by simp [Frame.attends], by simp, by simp⟩
  | owes => exact ⟨[], [_], _, rfl, rfl, .inl rfl, by simp, by simp, by simp⟩
  | serves => exact ⟨[], [_], _, rfl, rfl, .inl rfl, by simp, by simp, by simp⟩
  | emits => exact ⟨[], [], _, rfl, rfl, .inl rfl, by simp, by simp, by simp⟩
  | attempts => exact ⟨[], [_], _, rfl, rfl, .inl rfl, by simp, by simp, by simp⟩
  | @acts act _ _ next _ hleads =>
    refine ⟨[], [], _, rfl, rfl, .inl rfl, by simp, ?_, by simp⟩
    rintro - due rfl
    exact absurd hleads Act.not_leadsTo_act
  | tells => exact ⟨[], [_], _, rfl, rfl, .inl rfl, by simp [Frame.attends], by simp, by simp⟩
  | fansOut hf => exact ⟨[], [_], _, rfl, rfl, .inl rfl, by simp [hf.attends], by simp, by simp⟩
  | goesOn => exact ⟨[_], [], _, rfl, rfl, .inr ⟨trivial, _, rfl⟩, by simp, by simp, by simp⟩
  | handsOn _ _ _ hf =>
    exact ⟨[_], [_], _, rfl, rfl, .inr ⟨trivial, _, rfl⟩, by simp [hf.attends], by simp, by simp⟩
  | fansOn frames hr _ _ hf =>
    refine ⟨[_], frames, _, rfl, rfl, .inr ⟨hr, _, rfl⟩, ?_, by simp, by simp⟩
    intro _ _ _ frame hframe
    exact (hf frame hframe).attends
  | runsOn _ _ hr =>
    exact ⟨[_], [_], _, rfl, rfl, .inr ⟨hr, _, rfl⟩, by simp [Frame.attends], by simp, by simp⟩
  | closes _ hr =>
    exact ⟨[_], [_, _], _, rfl, rfl, .inr ⟨hr, _, rfl⟩, by simp [Frame.attends], by simp, by simp⟩
  | pops _ hr => exact ⟨[_], [], _, rfl, rfl, .inr ⟨hr, _, rfl⟩, by simp, by simp, by simp⟩
  | unwinds => exact ⟨[_], [], _, rfl, rfl, .inr ⟨trivial, _, rfl⟩, by simp, by simp, by simp⟩
  | settles => exact ⟨[_], [], _, rfl, rfl, .inr ⟨trivial, _, rfl⟩, by simp, by simp, by simp⟩
  | proceeds =>
    exact ⟨[_], [_], _, rfl, rfl, .inr ⟨trivial, _, rfl⟩, by simp [Frame.attends], by simp, by simp⟩
  | gives =>
    exact ⟨[_], [_, _], _, rfl, rfl, .inr ⟨trivial, _, rfl⟩, by simp [Frame.attends], by simp,
      by simp⟩
  | advances => exact ⟨[_], [_], _, rfl, rfl, .inr ⟨trivial, _, rfl⟩, by simp, by simp, by simp⟩
  | drops => exact ⟨[_], [_], _, rfl, rfl, .inr ⟨trivial, _, rfl⟩, by simp, by simp, by simp⟩
  | retires => exact ⟨[_], [], _, rfl, rfl, .inr ⟨trivial, _, rfl⟩, by simp, by simp, by simp⟩
  | leaves hr => exact ⟨[_], [], _, rfl, rfl, .inr ⟨hr, _, rfl⟩, by simp, by simp, by simp⟩
  | catches =>
    refine ⟨[_], [], _, rfl, rfl, .inr ⟨trivial, _, rfl⟩, by simp, ?_, by simp⟩
    intro _ _ _
    exact .inr ⟨_, hs.1 _ rfl⟩
  | _ => exact ⟨[], [], _, rfl, rfl, .inl rfl, by simp, by simp, by simp⟩

theorem Thread.IsBare.disciplined (h : thread.IsBare) : thread.Disciplined := by
  obtain ⟨n, control, stack⟩ := thread
  cases control <;> cases stack <;> first | exact h.elim | skip
  all_goals exact ⟨trivial, by simp [Control.Fits]⟩

theorem Thread.Begins.disciplined (h : thread.Begins) : thread.Disciplined := by
  cases h with
  | bare h => exact h.disciplined
  | turn =>
    refine ⟨⟨Frame.fits_of_not_steady (by simp) (by simp), trivial, trivial⟩, ?_⟩
    simp [Control.Fits, Frame.IsSteady]
  | closing _ _ _ _ hneat =>
    refine ⟨⟨Frame.fits_of_not_steady (by simp) (by simp [Frame.IsSteady]), hneat, ?_⟩, trivial⟩
    exact ⟨Frame.fits_of_not_steady (by simp) (by simp), trivial, trivial⟩

/-- What holds of every exchange whose sinks return normally. -/
structure World.Sound (w : World M E K H) : Prop where
  orderly : w.Orderly
  disciplined : w.Disciplined

namespace World

theorem initial_sound (host : H) : (initial host : World M E K H).Sound := by
  refine ⟨initial_orderly host, ?_⟩
  intro thread h
  rw [List.mem_singleton.mp h]
  exact Thread.IsBare.disciplined trivial

theorem Sound.of_step (hw : w.Sound) (ht : w.thread? t = some thread)
    (hs : w.step client t = some w') (hr : thread.sinkPanics = false) : w'.Sound := by
  obtain ⟨⟨m, -, stepped⟩, ho⟩ := step_stepped hw.orderly ht hs
  refine ⟨ho, ?_⟩
  intro other hother
  rcases stepped.succession.others_after hother with rfl | hbefore | hbare
  · exact stepped.stride.disciplined (hw.disciplined thread (mem_of_thread? ht)) hr
  · exact hw.disciplined other hbefore
  · exact hbare.disciplined

theorem Sound.of_between (hw : w.Sound) (hb : Between client w w') : w'.Sound := by
  obtain ⟨⟨-, come, gone, kept, hbefore, hafter, -, hcome⟩, ho⟩ := between_interlude hw.orderly hb
  refine ⟨ho, ?_⟩
  intro other hother
  rcases List.mem_append.mp (hafter.mem_iff.mp hother) with h | h
  · exact (hcome other h).disciplined
  · exact hw.disciplined other (hbefore.mem_iff.mpr (List.mem_append_right _ h))

end World

/-- Along a run whose sinks return normally threads stay disciplined. -/
theorem Run.sound {u : World M E K H} {trail : List (Moment M E K H)} (run : Run client u trail w)
    (hu : u.Sound) (hs : SinksReturn trail) : w.Sound := by
  induction run with
  | refl => exact hu
  | step _ ht hstep ih =>
    obtain ⟨hs, hlast⟩ := sinksReturn_append.mp hs
    exact (ih hs).of_step ht hstep (hlast _ List.mem_cons_self)
  | between _ hb ih => exact (ih hs).of_between hb

end Exchange
