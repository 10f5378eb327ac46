import Exchange.Proofs.Finale

/-!
The events of a point. Pushes queue up, passes take the first; what is left when the point ends is
dropped, and what comes later is refused. So the events pushed are those of the passes and after
them those dropped and refused.
-/

namespace Exchange
set_option autoImplicit false

variable {M E K : Type}

namespace Happening

def pushes? : Happening M E K → Option (Event M E)
  | .pushed event _ => some event
  | _ => none

def begins? : Happening M E K → Option (Event M E)
  | .begun event _ => some event
  | _ => none

/-- A push takes effect, now or when the pass is over. -/
def accepts? : Happening M E K → Option (Event M E)
  | .pushed event .taken | .pushed event .putOff => some event
  | _ => none

/-- A push comes after the end. -/
def refuses? : Happening M E K → Option (Event M E)
  | .pushed event .late => some event
  | _ => none

def drops? : Happening M E K → Option (Event M E)
  | .dropped event => some event
  | _ => none

end Happening

/-- The events pushed, in the order of the calls. -/
def pushEvents (history : List (Happening M E K)) : List (Event M E) :=
  history.filterMap Happening.pushes?

def passEvents (history : List (Happening M E K)) : List (Event M E) :=
  history.filterMap Happening.begins?

def droppedEvents (history : List (Happening M E K)) : List (Event M E) :=
  history.filterMap Happening.drops?

def refusedEvents (history : List (Happening M E K)) : List (Event M E) :=
  history.filterMap Happening.refuses?

def acceptedEvents (history : List (Happening M E K)) : List (Event M E) :=
  history.filterMap Happening.accepts?

section
variable (early late : List (Happening M E K))

@[simp] theorem pushEvents_append :
    pushEvents (early ++ late) = pushEvents early ++ pushEvents late :=
  List.filterMap_append

@[simp] theorem passEvents_append :
    passEvents (early ++ late) = passEvents early ++ passEvents late :=
  List.filterMap_append

@[simp] theorem droppedEvents_append :
    droppedEvents (early ++ late) = droppedEvents early ++ droppedEvents late :=
  List.filterMap_append

@[simp] theorem refusedEvents_append :
    refusedEvents (early ++ late) = refusedEvents early ++ refusedEvents late :=
  List.filterMap_append

@[simp] theorem acceptedEvents_append :
    acceptedEvents (early ++ late) = acceptedEvents early ++ acceptedEvents late :=
  List.filterMap_append

end

/-- The events that are still to be delivered, or to be dropped after the end. -/
def Phase.upcoming : Phase M E K → List (Event M E)
  | .listening _ => []
  | .dispatching _ pass => pass.upcoming
  | .ended farewell => farewell.late

@[simp] theorem Phase.upcoming_advance (phase : Phase M E K) (stays : Bool) :
    (phase.advance stays).upcoming = phase.upcoming := by
  cases phase with
  | dispatching owner pass =>
    obtain ⟨event, waiting, kept, postponed, queue⟩ := pass
    cases waiting <;> rfl
  | _ => rfl

@[simp] theorem Phase.isEnded_advance (phase : Phase M E K) (stays : Bool) :
    (phase.advance stays).isEnded = phase.isEnded := by cases phase <;> rfl

section
variable {happenings history : List (Happening M E K)} {s s' start : Standing M E K}

/-- How a change deals with the events pushed on a point: before the end pushes queue up, and passes
take the first; after it those that are left are dropped, one by one. -/
inductive Queues (s : Standing M E K) (happenings : List (Happening M E K)) (s' : Standing M E K) :
    Prop
  | before : ¬s.phase.isEnded → droppedEvents happenings = [] → refusedEvents happenings = [] →
      pushEvents happenings = acceptedEvents happenings →
      s.phase.upcoming ++ acceptedEvents happenings = passEvents happenings ++ s'.phase.upcoming →
      Queues s happenings s'
  | after : s.phase.isEnded → s'.phase.isEnded → passEvents happenings = [] →
      acceptedEvents happenings = [] → pushEvents happenings = refusedEvents happenings →
      s.phase.upcoming = droppedEvents happenings ++ s'.phase.upcoming →
      Queues s happenings s'

/-- Nothing is pushed, no pass begins, and no event is dropped. -/
def Happening.IsIdle (happening : Happening M E K) : Prop :=
  happening.pushes? = none ∧ happening.begins? = none ∧ happening.drops? = none

theorem Queues.of_idle (h : ∀ happening ∈ happenings, happening.IsIdle)
    (hphase : s'.phase.isEnded = s.phase.isEnded)
    (hqueue : s'.phase.upcoming = s.phase.upcoming) : Queues s happenings s' := by
  have hpushes : pushEvents happenings = [] :=
    List.filterMap_eq_nil_iff.mpr fun happening hh => (h happening hh).1
  have hpasses : passEvents happenings = [] :=
    List.filterMap_eq_nil_iff.mpr fun happening hh => (h happening hh).2.1
  have hdropped : droppedEvents happenings = [] :=
    List.filterMap_eq_nil_iff.mpr fun happening hh => (h happening hh).2.2
  have hnone : ∀ happening ∈ happenings,
      happening.accepts? = none ∧ happening.refuses? = none := by
    intro happening hh
    have hidle := (h happening hh).1
    cases happening <;> simp_all [Happening.accepts?, Happening.refuses?, Happening.pushes?]
  have haccepted : acceptedEvents happenings = [] :=
    List.filterMap_eq_nil_iff.mpr fun happening hh => (hnone happening hh).1
  have hrefused : refusedEvents happenings = [] :=
    List.filterMap_eq_nil_iff.mpr fun happening hh => (hnone happening hh).2
  by_cases hended : s.phase.isEnded
  · refine .after hended (hphase.trans hended) hpasses haccepted ?_ ?_
    · rw [hpushes, hrefused]
    · rw [hdropped, List.nil_append, hqueue]
  · refine .before hended hdropped hrefused ?_ ?_
    · rw [hpushes, haccepted]
    · rw [haccepted, hpasses, List.append_nil, List.nil_append, hqueue]

theorem Change.queues (h : Change s happenings s') : Queues s happenings s' := by
  cases h with
  | rests => exact .of_idle (by simp) rfl rfl
  | aside ha =>
    refine .of_idle (List.forall_mem_singleton.mpr ?_) rfl rfl
    rcases ha.eq with ⟨_, _, rfl⟩ | ⟨_, _, rfl⟩ | ⟨_, _, _, rfl⟩ | ⟨_, _, rfl⟩ <;>
      exact ⟨rfl, rfl, rfl⟩
  | unregistersLast => exact .before (by simp [Phase.isEnded]) rfl rfl rfl rfl
  | pushes => exact .before (by simp [Phase.isEnded]) rfl rfl rfl rfl
  | awaitsInside =>
    exact .of_idle
      (by simp [Happening.IsIdle, Happening.pushes?, Happening.begins?, Happening.drops?]) rfl
      (by simp [Phase.upcoming, Postponed.pushed?])
  | unregistersInside =>
    exact .of_idle
      (by simp [Happening.IsIdle, Happening.pushes?, Happening.begins?, Happening.drops?]) rfl
      (by simp [Phase.upcoming, Postponed.pushed?])
  | pushesInside event =>
    refine .before (by simp [Phase.isEnded]) rfl rfl rfl ?_
    simp [Phase.upcoming, Postponed.pushed?, passEvents, acceptedEvents, Happening.accepts?,
      Happening.begins?]
  | pushesLate => exact .after rfl rfl rfl rfl rfl rfl
  | skips => exact .of_idle (by simp) (Phase.isEnded_advance _ _) (Phase.upcoming_advance _ _)
  | @gives _ _ _ entry =>
    refine .of_idle (List.forall_mem_singleton.mpr ?_) rfl rfl
    cases entry <;> exact ⟨rfl, rfl, rfl⟩
  | leaves =>
    exact .of_idle (List.forall_mem_singleton.mpr ⟨rfl, rfl, rfl⟩) (Phase.isEnded_advance _ _)
      (Phase.upcoming_advance _ _)
  | reopens hwaiting hcommit =>
    obtain ⟨-, -, hqueue, -⟩ := Pass.commit_listening hcommit
    exact .before (by simp [Phase.isEnded]) rfl rfl rfl
      (by simpa [Phase.upcoming, acceptedEvents, passEvents] using hqueue)
  | goesOn hwaiting hcommit =>
    obtain ⟨-, -, -, event, later, hqueue, rfl⟩ := Pass.commit_dispatching hcommit
    refine .before (by simp [Phase.isEnded]) rfl rfl rfl ?_
    simp [Phase.upcoming, acceptedEvents, passEvents, hqueue, Happening.accepts?, Happening.begins?]
  | ends hwaiting hcommit =>
    refine .before (by simp [Phase.isEnded]) rfl rfl rfl ?_
    rcases Pass.commit_ended hcommit with ⟨-, rfl⟩ | ⟨-, -, rfl⟩ <;>
      exact List.append_nil _
  | drops => exact .after rfl rfl rfl rfl rfl rfl
  | calls => exact .of_idle (by simp) rfl rfl
  | retires => exact .of_idle (by simp) rfl rfl
  | _ => exact .of_idle (List.forall_mem_singleton.mpr ⟨rfl, rfl, rfl⟩) rfl rfl

/-- The events pushed are those of the passes, then those still to come or dropped, then those that
came too late. -/
structure Ordered (history : List (Happening M E K)) (s : Standing M E K) : Prop where
  order : pushEvents history =
    passEvents history ++ (droppedEvents history ++ s.phase.upcoming ++ refusedEvents history)
  before : ¬s.phase.isEnded → droppedEvents history = [] ∧ refusedEvents history = []

theorem Ordered.change (ho : Ordered history s) (h : Queues s happenings s') :
    Ordered (history ++ happenings) s' := by
  obtain ⟨horder, hbefore⟩ := ho
  cases h with
  | before hended hdropped hrefused hpushes hqueue =>
    obtain ⟨hnone, hnone'⟩ := hbefore hended
    constructor
    · simp only [pushEvents_append, passEvents_append, droppedEvents_append, refusedEvents_append,
        horder, hnone, hnone', hdropped, hrefused, hpushes, List.nil_append, List.append_nil,
        List.append_assoc, hqueue]
    · intro _
      simp [hnone, hnone', hdropped, hrefused]
  | after _ hended hpasses haccepted hpushes hqueue =>
    constructor
    · simp only [pushEvents_append, passEvents_append, droppedEvents_append, refusedEvents_append,
        horder, hpasses, hpushes, hqueue, List.append_nil, List.append_assoc]
    · intro hopen
      exact absurd hended hopen

theorem Course.ordered (h : Course .initial history s) : Ordered history s := by
  induction h with
  | refl => exact ⟨rfl, fun _ => ⟨rfl, rfl⟩⟩
  | step _ hchange ih => exact ih.change hchange.queues

theorem Course.upcoming_eq_nil (h : Course .initial history s) (hidle : s.service = .idle) :
    s.phase.upcoming = [] := by
  have hc := h.coherent Standing.initial_coherent
  cases hphase : s.phase with
  | listening => rfl
  | dispatching owner pass => exact absurd hidle (hc.dispatching owner pass hphase)
  | ended farewell => exact (hc.ended farewell hphase hidle).2

theorem Course.passEvents_le (h : Course start history s) :
    (passEvents history).length + s.phase.upcoming.length ≤
      start.phase.upcoming.length + (acceptedEvents history).length := by
  induction h with
  | refl =>
    apply Nat.le_of_eq
    simp [passEvents, acceptedEvents]
  | step _ hchange ih =>
    rw [passEvents_append, acceptedEvents_append, List.length_append, List.length_append]
    cases hchange.queues with
    | before _ _ _ _ hqueue =>
      have hlength := congrArg List.length hqueue
      rw [List.length_append, List.length_append] at hlength
      omega
    | after _ _ hpasses haccepted _ hqueue =>
      have hlength := congrArg List.length hqueue
      rw [List.length_append] at hlength
      rw [hpasses, haccepted, List.length_nil]
      omega

theorem Course.passEvents_eq_nil (h : Course start history s) (hended : start.phase.isEnded) :
    s.phase.isEnded ∧ passEvents history = [] := by
  induction h with
  | refl => exact ⟨hended, rfl⟩
  | step _ hchange ih =>
    obtain ⟨hbefore, hnone⟩ := ih
    cases hchange.queues with
    | before hopen => exact absurd hbefore hopen
    | after _ hafter hpasses =>
      refine ⟨hafter, ?_⟩
      rw [passEvents_append, hnone, hpasses, List.nil_append]

/-! ## Which events are presented -/

theorem Pass.event_advance (pass : Pass M E K) (keep : Bool) :
    (pass.advance keep).event = pass.event := by
  unfold Pass.advance
  split <;> rfl

/-- A pass has just begun, or delivers the event that it delivered before. -/
theorem Change.open_pass (h : Change s happenings s') {owner : Nat} {pass : Pass M E K}
    (hphase : s'.phase = .dispatching owner pass) :
    passEvents happenings = [pass.event] ∨
      passEvents happenings = [] ∧
        ∃ before, s.phase = .dispatching owner before ∧ before.event = pass.event := by
  cases h with
  | rests => exact .inr ⟨rfl, pass, hphase, rfl⟩
  | aside ha =>
    refine .inr ⟨?_, pass, hphase, rfl⟩
    rcases ha.eq with ⟨_, _, rfl⟩ | ⟨_, _, rfl⟩ | ⟨_, _, _, rfl⟩ | ⟨_, _, rfl⟩ <;> rfl
  | pushes =>
    cases hphase
    exact .inl rfl
  | awaitsInside =>
    cases hphase
    exact .inr ⟨rfl, _, rfl, rfl⟩
  | unregistersInside =>
    cases hphase
    exact .inr ⟨rfl, _, rfl, rfl⟩
  | pushesInside =>
    cases hphase
    exact .inr ⟨rfl, _, rfl, rfl⟩
  | calls => exact .inr ⟨rfl, pass, hphase, rfl⟩
  | @skips phase =>
    cases phase <;> cases hphase
    exact .inr ⟨rfl, _, rfl, (Pass.event_advance _ _).symm⟩
  | @gives _ _ _ entry => exact .inr ⟨by cases entry <;> rfl, pass, hphase, rfl⟩
  | @leaves phase =>
    cases phase <;> cases hphase
    exact .inr ⟨rfl, _, rfl, (Pass.event_advance _ _).symm⟩
  | goesOn =>
    cases hphase
    exact .inl rfl
  | _ => cases hphase

/-- The pass that is open delivers the event of the last pass begun. -/
theorem Course.last_begun (h : Course .initial history s) {owner : Nat} {pass : Pass M E K}
    (hphase : s.phase = .dispatching owner pass) :
    (passEvents history).getLast? = some pass.event := by
  induction h generalizing owner pass with
  | refl => cases hphase
  | step _ hchange ih =>
    rw [passEvents_append]
    rcases hchange.open_pass hphase with hone | ⟨hnone, before, hbefore, hevent⟩
    · rw [hone, List.getLast?_concat]
    · rw [hnone, List.append_nil, ih hbefore, hevent]

/-- Whoever has a turn is given the event of the pass that is open, or an observer the tombstone. -/
theorem Course.presented_in_turn (h : Course .initial history s)
    {early late : List (Happening M E K)} {id : Nat} {code : K} {event : Event M E}
    {occasion : Occasion} (heq : history = early ++ .presented id code event occasion :: late)
    (hcall : occasion ≠ .call) :
    (occasion = .pass ∧ (passEvents early).getLast? = some event) ∨ event = .tombstone := by
  have hturn : (.presented id code event occasion : Happening M E K).turns (.observer id) := by
    simp [Happening.turns, hcall]
  obtain ⟨now, entry, event', course, hdue, -, hgiven⟩ := h.at_turn heq hturn
  cases entry with
  | ending => cases hgiven
  | observer =>
    cases hgiven
    have hfinale := course.finale
    cases hphase : now.phase with
    | listening => simp [hphase, Phase.due] at hdue
    | dispatching owner pass =>
      obtain ⟨_, -, rfl, -⟩ := Phase.advance_dispatching true (hphase ▸ hdue)
      exact .inl ⟨rfl, course.last_begun hphase⟩
    | ended farewell =>
      obtain ⟨rest, hwaiting, rfl, -⟩ := Phase.advance_ended true (hphase ▸ hdue)
      rw [hphase] at hfinale
      rcases hfinale with ⟨-, -, hendings⟩ | ⟨-, htomb⟩
      · have hending := hendings _ (hwaiting ▸ List.mem_cons_self)
        cases hending
      · exact .inr htomb

end
end Exchange
