import Exchange.Proofs.Sparing
import Exchange.Proofs.Turns

/-!
What threads hand over. A thread that reports a diagnostic hands it to the sink to which it is reported before it
does anything else; so what a thread hands over is what it reports, each diagnostic once and in the same order,
whatever panics there are. That needs no more of the stack than where deliveries and sets of sinks can stand.
-/

namespace Exchange
set_option autoImplicit false

variable {M E K H : Type} {client : Client M E K H} {w w' : World M E K H} {t n p : Nat}
  {thread : Thread M E K H}
variable {control : Control M E K H} {stack : List (Frame M E K H)} {m : Move M E K H}
variable {trail : List (Moment M E K H)} {host : H}

/-! ## Where frames stand -/

/-- The thread is about to do something for a call, or to make one. -/
def Control.IsDoing : Control M E K H → Prop
  | .act _ | .perform _ => True
  | _ => False

/-- Neither right above a set of sinks nor right above a turn anything is done for a call. -/
structure Thread.Placed (thread : Thread M E K H) : Prop where
  seated : Seated thread.stack
  plain : thread.control.IsDoing → ∀ frame, thread.stack.head? = some frame →
    ¬frame.IsFanOut ∧ frame.isTurn = false

theorem seated_append {frames : List (Frame M E K H)} (hf : ∀ frame ∈ frames, frame.IsFanOut)
    (hs : Seated stack) : Seated (frames ++ stack) := by
  induction frames with
  | nil => exact hs
  | cons frame frames ih =>
    refine ⟨?_, ih fun other hother => hf other (List.mem_cons_of_mem _ hother)⟩
    rintro p rfl
    exact (hf _ List.mem_cons_self).elim

theorem Thread.IsBare.placed (h : thread.IsBare) : thread.Placed := by
  obtain ⟨id, control, stack⟩ := thread
  refine ⟨h.stack_eq ▸ trivial, ?_⟩
  intro _ frame hframe
  rw [h.stack_eq] at hframe
  cases hframe

theorem Thread.Begins.placed (h : thread.Begins) : thread.Placed := by
  cases h with
  | bare h => exact h.placed
  | turn => exact ⟨⟨by simp, trivial⟩, fun h => h.elim⟩
  | closing => exact ⟨⟨by simp, by simp, trivial⟩, fun h => h.elim⟩

/-- However calls are left, by a reply or by a panic, what is left stays in place. -/
theorem Stride.placed (h : Stride client w n control stack m) (hp : Thread.Placed ⟨t, control, stack⟩) :
    Thread.Placed ⟨t, m.control, m.stack⟩ := by
  obtain ⟨hseated, hplain⟩ := hp
  dsimp only at hseated hplain
  cases h with
  | returns => exact ⟨hseated, fun h => h.elim⟩
  | panics => exact ⟨hseated, fun h => h.elim⟩
  | changes => exact ⟨hseated, fun h => h.elim⟩
  | calls => exact ⟨⟨by simp, hseated⟩, by simp [Frame.IsFanOut, Frame.isTurn]⟩
  | answers => exact ⟨hseated, fun h => h.elim⟩
  | owes => exact ⟨⟨by simp, hseated⟩, fun h => h.elim⟩
  | serves => exact ⟨⟨by simp, hseated⟩, fun h => h.elim⟩
  | emits => exact ⟨hseated, fun _ => hplain trivial⟩
  | attempts => exact ⟨⟨by simp, hseated⟩, fun h => h.elim⟩
  | forks => exact ⟨hseated, fun h => h.elim⟩
  | forksAndWaits => exact ⟨hseated, fun h => h.elim⟩
  | joins => exact ⟨hseated, fun h => h.elim⟩
  | joinsPanic => exact ⟨hseated, fun h => h.elim⟩
  | acts => exact ⟨hseated, fun _ => hplain trivial⟩
  | tells => exact ⟨⟨by simp, hseated⟩, fun h => h.elim⟩
  | records => exact ⟨hseated, fun h => h.elim⟩
  | @fansOut _ _ _ frame hf =>
    exact ⟨seated_append (List.forall_mem_singleton.mpr hf) hseated, fun h => h.elim⟩
  | goesOn => exact ⟨hseated.2, fun h => h.elim⟩
  | handsOn _ _ _ hf =>
    exact ⟨seated_append (List.forall_mem_singleton.mpr hf) hseated.2, fun h => h.elim⟩
  | fansOn frames _ _ _ hf => exact ⟨seated_append hf hseated.2, fun h => h.elim⟩
  | runsOn => exact ⟨⟨by simp, hseated.2⟩, fun h => h.elim⟩
  | closes => exact ⟨⟨by simp, by simp, hseated.2⟩, fun h => h.elim⟩
  | pops => exact ⟨hseated.2, fun h => h.elim⟩
  | unwinds => exact ⟨hseated.2, fun h => h.elim⟩
  | settles => exact ⟨hseated.2, fun h => h.elim⟩
  | proceeds => exact ⟨⟨by simp, hseated.2⟩, by simp [Frame.IsFanOut, Frame.isTurn]⟩
  | gives => exact ⟨⟨by simp, hseated⟩, by simp [Frame.IsFanOut, Frame.isTurn]⟩
  | advances => exact ⟨hseated, fun h => h.elim⟩
  | drops => exact ⟨hseated, by simp [Frame.IsFanOut, Frame.isTurn]⟩
  | retires => exact ⟨hseated.2, fun h => h.elim⟩
  | leaves => exact ⟨hseated.2, fun h => h.elim⟩
  | catches =>
    refine ⟨hseated.2, ?_⟩
    intro _ frame hframe
    cases (hseated.1 _ rfl).symm.trans hframe
    exact ⟨id, rfl⟩

/-! ## What a thread has in hand -/

/-- A diagnostic that the thread is about to hand to the sink to which it is reported, and not, as a set, to
one of its members. -/
def Thread.inHand? (thread : Thread M E K H) : Option (Sink K × Diagnostic) :=
  match thread.control, thread.stack with
  | .deliver _ _, .fanOut _ _ _ _ :: _ => none
  | .deliver sink diagnostic, _ => some (sink, diagnostic)
  | _, _ => none

/-- The diagnostics that have been handed to the sinks to which they were reported. -/
def handed (trail : List (Moment M E K H)) : List (Sink K × Diagnostic) :=
  trail.filterMap fun m => m.thread.inHand?

theorem Thread.inHand?_of_plain {sink : Sink K} {diagnostic : Diagnostic}
    (h : ∀ frame, stack.head? = some frame → ¬frame.IsFanOut) :
    Thread.inHand? (⟨t, .deliver sink diagnostic, stack⟩ : Thread M E K H) = some (sink, diagnostic) := by
  cases stack with
  | nil => rfl
  | cons frame stack =>
    cases frame with
    | fanOut => exact absurd trivial (h _ rfl)
    | _ => rfl

theorem Thread.inHand?_eq_none (h : ∀ sink diagnostic, thread.control ≠ .deliver sink diagnostic) :
    thread.inHand? = none := by
  obtain ⟨id, control, stack⟩ := thread
  cases control with
  | deliver sink diagnostic => exact absurd rfl (h sink diagnostic)
  | _ => rfl

theorem Moment.diagnosis?_of_return (h : control.IsReturn) :
    Moment.diagnosis? ⟨w, ⟨t, control, stack⟩⟩ = none := by
  cases control <;> first | rfl | exact h.elim

/-- What a thread has in hand after a step is what it has reported in that step. -/
theorem World.inHand?_of_move (hm : w.move client n stack control = some m)
    (hp : Thread.Placed ⟨t, control, stack⟩) :
    Thread.inHand? ⟨t, m.control, m.stack⟩ = Moment.diagnosis? ⟨w, ⟨t, control, stack⟩⟩ := by
  have returned (hreturn : control.IsReturn)
      (hnone : ∀ sink diagnostic, m.control ≠ .deliver sink diagnostic) :
      Thread.inHand? ⟨t, m.control, m.stack⟩ = Moment.diagnosis? ⟨w, ⟨t, control, stack⟩⟩ := by
    rw [Moment.diagnosis?_of_return hreturn]
    exact Thread.inHand?_eq_none hnone
  cases move_stride hm with
  | @acts act _ _ next _ hleads =>
    cases act with
    | report sink kind label reason =>
      cases hm
      exact Thread.inHand?_of_plain fun frame hframe => (hp.plain trivial frame hframe).1
    | _ =>
      refine Thread.inHand?_eq_none ?_
      rintro sink diagnostic rfl
      rcases hleads.control_cases with ⟨_, _, _, _, h, -⟩ | h | ⟨-, ⟨_, h⟩ | ⟨_, -, h⟩⟩ <;> cases h
  | @handsOn _ _ _ frame' _ _ _ hf => cases frame' <;> first | rfl | exact hf.elim
  | fansOn _ hreturn => exact returned hreturn (by simp)
  | runsOn _ _ hreturn => exact returned hreturn (by simp)
  | closes _ hreturn => exact returned hreturn (by simp)
  | pops _ hreturn => exact returned hreturn (by simp)
  | leaves hreturn => exact returned hreturn (by simp)
  | _ => exact Thread.inHand?_eq_none (by simp)

/-! ## What threads do next -/

section
variable {α : Type} {cause : Moment M E K H → Option α} {due : Thread M E K H → Option α}

theorem World.bind_thread?_eq_some (ho : w.Orderly) {a : α} :
    (w.thread? t).bind due = some a ↔ ∃ thread ∈ w.threads, thread.id = t ∧ due thread = some a := by
  constructor
  · intro h
    obtain ⟨thread, ht, hdue⟩ := Option.bind_eq_some_iff.mp h
    exact ⟨thread, mem_of_thread? ht, id_of_thread? ht, hdue⟩
  · rintro ⟨thread, hmem, rfl, hdue⟩
    exact Option.bind_eq_some_iff.mpr ⟨thread, ho.thread?_eq hmem, hdue⟩

/-- Each step of the thread that calls for something is followed by a step that does it: what the steps
have called for is done, in that order, but for what the thread is about to do. -/
def Prompt (cause : Moment M E K H → Option α) (due : Thread M E K H → Option α) (t : Nat)
    (trail : List (Moment M E K H)) (w : World M E K H) : Prop :=
  (trail.filter (·.thread.id = t)).filterMap cause =
    (trail.filter (·.thread.id = t)).filterMap (fun m => due m.thread) ++ ((w.thread? t).bind due).toList

variable (hnone : ∀ thread : Thread M E K H, thread.Begins → due thread = none)
include hnone

/-- Threads that come or go are about to do nothing of the kind, the others as before. -/
theorem World.bind_thread?_kept (ho : w.Orderly) (ho' : w'.Orderly)
    (hgone : ∀ thread ∈ w.threads, thread.id = t → thread ∈ w'.threads ∨ thread.Begins)
    (hcome : ∀ thread ∈ w'.threads, thread.id = t → thread ∈ w.threads ∨ thread.Begins) :
    (w'.thread? t).bind due = (w.thread? t).bind due := by
  apply Option.ext
  intro a
  rw [World.bind_thread?_eq_some ho, World.bind_thread?_eq_some ho']
  constructor
  · rintro ⟨thread, hmem, hid, hdue⟩
    refine ⟨thread, (hcome thread hmem hid).resolve_right ?_, hid, hdue⟩
    intro hbegins
    rw [hnone thread hbegins] at hdue
    cases hdue
  · rintro ⟨thread, hmem, hid, hdue⟩
    refine ⟨thread, (hgone thread hmem hid).resolve_right ?_, hid, hdue⟩
    intro hbegins
    rw [hnone thread hbegins] at hdue
    cases hdue

theorem Prompt.initial (host : H) : Prompt cause due t [] (.initial host) := by
  have hnothing : ((World.initial host).thread? t).bind due = none := by
    apply Option.eq_none_iff_forall_ne_some.mpr
    intro a hsome
    obtain ⟨thread, hmem, -, hdue⟩ := (World.bind_thread?_eq_some (World.initial_orderly host)).mp hsome
    have hbare : thread.IsBare := by
      rw [List.mem_singleton.mp hmem]
      trivial
    rw [hnone thread (.bare hbare)] at hdue
    cases hdue
  rw [Prompt, hnothing]
  rfl

theorem Prompt.of_step (h : Prompt cause due t trail w) (ho : w.Orderly) (hn : w.thread? n = some thread)
    (hs : w.step client n = some w')
    (hmove : ∀ m, w.move client n thread.stack thread.control = some m →
      due ⟨n, m.control, m.stack⟩ = cause ⟨w, thread⟩) :
    Prompt cause due t (trail ++ [⟨w, thread⟩]) w' := by
  obtain ⟨⟨m, hm, stepped⟩, ho'⟩ := World.step_stepped ho hn hs
  have hid := World.id_of_thread? hn
  rw [Prompt, List.filter_append]
  by_cases hne : n = t
  · subst hne
    have hbefore : (w.thread? n).bind due = due thread := by rw [hn, Option.bind_some]
    have hafter : (w'.thread? n).bind due = cause ⟨w, thread⟩ := by
      rw [← hid, ho'.thread?_eq stepped.succession.mem_after, Option.bind_some, hid]
      exact hmove m hm
    rw [List.filter_cons_of_pos (by simp [hid]), List.filter_nil, List.filterMap_append, h,
      List.filterMap_append, hbefore, hafter]
    cases hdue : due thread <;> cases hcause : cause ⟨w, thread⟩ <;> simp [hdue, hcause]
  · have hsame : (w'.thread? t).bind due = (w.thread? t).bind due := by
      apply World.bind_thread?_kept hnone ho ho'
      · intro other hother hother'
        rcases stepped.succession.others_before hother with rfl | hafter | hbare
        · exact absurd (hid.symm.trans hother') hne
        · exact .inl hafter
        · exact .inr (.bare hbare)
      · intro other hother hother'
        rcases stepped.succession.others_after hother with rfl | hbefore | hbare
        · exact absurd (hid.symm.trans hother') hne
        · exact .inl hbefore
        · exact .inr (.bare hbare)
    rw [List.filter_cons_of_neg (by simp [hid, hne]), List.filter_nil, List.append_nil, h, hsame]

theorem Prompt.of_between (h : Prompt cause due t trail w) (ho : w.Orderly) (hb : Between client w w') :
    Prompt cause due t trail w' := by
  obtain ⟨⟨-, come, gone, kept, hbefore, hafter, hgone, hcome⟩, ho'⟩ := World.between_interlude ho hb
  rw [Prompt, h, World.bind_thread?_kept hnone ho ho']
  · intro other hother _
    rcases List.mem_append.mp (hbefore.mem_iff.mp hother) with hleft | hstays
    · exact .inr (.bare (hgone other hleft))
    · exact .inl (hafter.mem_iff.mpr (List.mem_append_right _ hstays))
  · intro other hother _
    rcases List.mem_append.mp (hafter.mem_iff.mp hother) with hnew | hstays
    · exact .inr (hcome other hnew)
    · exact .inl (hbefore.mem_iff.mpr (List.mem_append_right _ hstays))

end

/-! ## Runs -/

def World.inHand? (w : World M E K H) (t : Nat) : Option (Sink K × Diagnostic) :=
  (w.thread? t).bind Thread.inHand?

theorem Thread.Begins.inHand? (h : thread.Begins) : thread.inHand? = none := by
  cases h with
  | @bare thread h =>
    obtain ⟨id, control, stack⟩ := thread
    cases control <;> cases stack <;> first | rfl | exact h.elim
  | turn => rfl
  | closing => rfl

namespace World

/-- Threads have different numbers, and stand in place. -/
structure Placed (w : World M E K H) : Prop where
  orderly : w.Orderly
  placed : ∀ thread ∈ w.threads, thread.Placed

theorem initial_placed (host : H) : (initial host : World M E K H).Placed := by
  refine ⟨initial_orderly host, ?_⟩
  intro thread hmem
  have hbare : thread.IsBare := by
    rw [List.mem_singleton.mp hmem]
    trivial
  exact hbare.placed

theorem Placed.of_step (h : w.Placed) (ht : w.thread? t = some thread)
    (hs : w.step client t = some w') : w'.Placed := by
  obtain ⟨⟨m, hm, stepped⟩, ho⟩ := step_stepped h.orderly ht hs
  refine ⟨ho, ?_⟩
  intro other hother
  rcases stepped.succession.others_after hother with rfl | hbefore | hbare
  · exact stepped.stride.placed (h.placed thread (mem_of_thread? ht))
  · exact h.placed other hbefore
  · exact hbare.placed

theorem Placed.of_between (h : w.Placed) (hb : Between client w w') : w'.Placed := by
  obtain ⟨⟨-, come, gone, kept, hbefore, hafter, -, hcome⟩, ho⟩ := between_interlude h.orderly hb
  refine ⟨ho, ?_⟩
  intro other hother
  rcases List.mem_append.mp (hafter.mem_iff.mp hother) with hnew | hold
  · exact (hcome other hnew).placed
  · exact h.placed other (hbefore.mem_iff.mpr (List.mem_append_right _ hold))

end World

theorem Run.stays_placed {u : World M E K H} (run : Run client u trail w) (hu : u.Placed) : w.Placed := by
  induction run with
  | refl => exact hu
  | step _ ht hs ih => exact ih.of_step ht hs
  | between _ hb ih => exact ih.of_between hb

theorem Run.placed (run : Run client (.initial host) trail w) : w.Placed :=
  run.stays_placed (World.initial_placed host)

/-- What a thread has reported it has handed over, in the same order, but for what it has in hand. -/
theorem Run.hands_over (run : Run client (.initial host) trail w) (t : Nat) :
    diagnoses (trail.filter (·.thread.id = t)) =
      handed (trail.filter (·.thread.id = t)) ++ (w.inHand? t).toList := by
  suffices h : Prompt Moment.diagnosis? Thread.inHand? t trail w from h
  have hnone : ∀ thread : Thread M E K H, thread.Begins → thread.inHand? = none :=
    fun _ h => h.inHand?
  induction run with
  | refl => exact Prompt.initial hnone host
  | step run ht hs ih =>
    refine ih.of_step hnone run.placed.orderly ht hs ?_
    intro m hm
    obtain rfl := World.id_of_thread? ht
    exact World.inHand?_of_move hm (run.placed.placed _ (World.mem_of_thread? ht))
  | between run hb ih => exact ih.of_between hnone run.placed.orderly hb

end Exchange
