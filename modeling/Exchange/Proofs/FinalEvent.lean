import Exchange.Proofs.Call
import Exchange.Proofs.Enactment
import Exchange.Proofs.Finale
import Exchange.Proofs.Queue

/-!
Every observer sees one final event, and nothing after it.
-/

namespace Exchange
set_option autoImplicit false

variable {M E K H : Type} {client : Client M E K H} {w w' : World M E K H}

namespace Course
variable {s : Standing M E K} {history : List (Happening M E K)}

/-- An observer that has stayed to the end is told of it once, by the final pass if there was one.
-/
theorem final_event (h : Course .initial history s) (hended : s.phase.isEnded)
    (hidle : s.service = .idle)
    {id : Nat} {interest : Interest} {code : K} (hjoined : .registered id interest code ∈ history)
    (hstays : ∀ happening ∈ history, happening.loses (.observer id) = false) :
    ∃ event occasion, history.filter (Happening.tells (.observer id)) =
        [.presented id code event occasion] ∧
      ((occasion = .pass ∧ event.isLast ∧ ∃ entries, .begun event entries ∈ history) ∨
        (occasion = .farewell ∧ event = .tombstone ∧
          ∀ e entries, .begun e entries ∈ history → ¬e.isLast)) := by
  have ht := h.tallied
  obtain ⟨entry, event, occasion, hmem, htells, other, hother, hbrings⟩ :=
    h.told_of_joins (k := .observer id) hended hidle hjoined (by simp [Happening.joins]) hstays
  cases entry with
  | ending => simp [Entry.given, Happening.tells] at htells
  | observer id' interest' code' =>
    obtain ⟨⟨hcall, hlast⟩, rfl⟩ : (occasion ≠ .call ∧ event.isLast) ∧ id' = id := by
      simpa [Entry.given, Happening.tells] using htells
    obtain rfl := hbrings.eq_registered
    cases ht.eq_of_joins (k := .observer id') hother hjoined (by simp [Happening.joins])
      (by simp [Happening.joins])
    refine ⟨event, occasion, filter_eq_singleton (ht.told_once _) hmem htells, ?_⟩
    have hfinale := h.finale
    obtain ⟨phase, v, i, n⟩ := s
    cases phase with
    | listening => cases hended
    | dispatching => cases hended
    | ended farewell =>
      rcases hfinale with ⟨hby, ⟨entries, hbegun⟩, -⟩ | ⟨hby, htomb⟩
      · obtain ⟨rfl, rfl⟩ := hby _ hmem hcall hlast
        exact .inl ⟨rfl, hlast, entries, hbegun⟩
      · obtain ⟨rfl, rfl⟩ := hby _ hmem hcall hlast
        refine .inr ⟨rfl, htomb, ?_⟩
        intro e entries hbegun hfinal
        cases (hby _ hbegun hfinal).2

end Course

/-! ## Observers that come too late -/

/-- What a register call owes that comes too late. -/
theorem World.perform_register_late {t p : Nat} {point : Point M E K} {below : List (Frame M E K H)}
    (hp : w.points[p]? = some point) (hended : point.phase.isEnded) (interest : Interest) (code : K) :
    w.perform client t below (.register p interest code) = some (.acts w below p
      [point.report p .lateRegistration none, .present code .tombstone] (.registered (.ok .inert))) := by
  cases hphase : point.phase with
  | listening => simp [hphase, Phase.isEnded] at hended
  | dispatching => simp [hphase, Phase.isEnded] at hended
  | ended farewell => simp [World.perform, World.register, hp, hphase, Phase.access, Phase.isEnded]

theorem World.owes_latecomer {t p : Nat} {point : Point M E K} {below : List (Frame M E K H)}
    {interest : Interest} {code : K} (hp : w.points[p]? = some point) (hended : point.phase.isEnded) :
    (∀ act ∈ [point.report p .lateRegistration none, .present code .tombstone], act.IsDue) ∧
    ∀ m, w.perform client t below (.register p interest code) = some m → ∃ w', m = .acts w' below p
      [point.report p .lateRegistration none, .present code .tombstone] (.registered (.ok .inert)) := by
  constructor
  · simp [Point.report, Act.IsDue]
  · intro m hm
    rw [perform_register_late hp hended interest code] at hm
    exact ⟨w, (Option.some.inj hm).symm⟩

/-- An observer that comes too late is given the tombstone, once, by the register call itself. -/
theorem Call.register_late {t p : Nat} {point : Point M E K} {below : List (Frame M E K H)}
    {interest : Interest} {code : K} {during : List (Moment M E K H)}
    (call : Call client t below (.register p interest code) w during w') (hw : w.Sound)
    (hr : SinksReturn during) (hp : w.points[p]? = some point) (hended : point.phase.isEnded) :
    ownActs p t below during <+: [point.report p .lateRegistration none, .present code .tombstone] ∧
      (w'.IsBack t below → ownActs p t below during =
        [point.report p .lateRegistration none, .present code .tombstone]) := by
  obtain ⟨hdue, hfirst⟩ := World.owes_latecomer hp hended
  constructor
  · exact call.ownActs_prefix hw hr hdue hfirst
  · exact call.ownActs_eq hw hr hdue hfirst

/-- Whoever joins a point is given at most one final event and nothing after it; whoever has stayed
to the end is given one by the time the call that ended the point is over; whoever comes too late is
given the tombstone. To be given an event is to be run: the step goes over to the observer's own code, which
gets the very event. -/
theorem observers_see_one_final_event {host : H} {trail : List (Moment M E K H)}
    (run : Run client (.initial host) trail w) (hr : SinksReturn trail) (p : Nat) :
    Enacted client p trail ∧
    (∀ id, joined (.observer id) (history p trail) ≤ 1 ∧
      told (.observer id) (history p trail) ≤ 1 ∧
      (history p trail).Pairwise fun earlier later => earlier.tells (.observer id) →
        ¬later.turns (.observer id)) ∧
    ((w.phase p).isEnded → ¬w.IsServed p →
      ∀ id interest code, .registered id interest code ∈ history p trail →
        (∀ happening ∈ history p trail, happening.loses (.observer id) = false) →
        ∃ event occasion, (history p trail).filter (Happening.tells (.observer id)) =
          [.presented id code event occasion] ∧
          ((occasion = .pass ∧ event.isLast ∧ ∃ entries, .begun event entries ∈ history p trail) ∨
            (occasion = .farewell ∧ event = .tombstone ∧
              ∀ e entries, .begun e entries ∈ history p trail → ¬e.isLast))) ∧
    (∀ point, w.points[p]? = some point → point.phase.isEnded → ∀ t below interest code during w',
      Call client t below (.register p interest code) w during w' → SinksReturn during →
      Enacted client p during ∧
      ownActs p t below during <+:
        [point.report p .lateRegistration none, .present code .tombstone] ∧
        (w'.IsBack t below → ownActs p t below during =
          [point.report p .lateRegistration none, .present code .tombstone])) := by
  obtain ⟨s, course, stands⟩ := run.course_of_initial hr p
  refine ⟨run.enacted hr p, ?_, ?_, ?_⟩
  · intro id
    exact ⟨course.tallied.once _, course.tallied.told_once _, course.told_last _⟩
  · intro hended hserved id interest code hjoined hstays
    exact course.final_event (stands.phase_eq ▸ hended) (stands.idle hserved) hjoined hstays
  · intro point hp hended t below interest code during w' call hr'
    exact ⟨run.enacted_later call.run hr hr' p,
      call.register_late (run.sound (World.initial_sound host) hr) hr' hp hended⟩

/-- Of three observers one declines the first event, and one pushes a final event when it is given the
first. A fourth comes too late. -/
def lateComing : List (Moment Unit Unit Manner Notes) × World Unit Unit Manner Notes :=
  World.runCalls finishingClient [] [.create "request" .recorder, .register 0 .active .stays,
    .register 0 .passive .declines, .register 0 .passive .calls, .push 0 (.ofResponse () false),
    .register 0 .active .stays] 47

theorem observers_see_one_final_event_noting : ∃ below during w',
    Call finishingClient 0 below (.register 0 .active .stays) lateComing.2 during w' ∧
    w'.IsBack 0 below ∧ Enacted finishingClient 0 (lateComing.1 ++ during) ∧
    (history 0 lateComing.1).filter (Happening.tells (.observer 1)) =
      [.presented 1 .stays (.ofResponse () true) .pass] ∧
    told (.observer 2) (history 0 lateComing.1) = 0 ∧
    (history 0 lateComing.1).filter (Happening.tells (.observer 3)) =
      [.presented 3 .calls (.ofResponse () true) .pass] ∧
    ownActs 0 0 below during = [.report .recorder .lateRegistration (some "rendezvous#0") none,
      .present .stays .tombstone] ∧
    w'.host = [(.stays, some (.ofResponse () false)), (.declines, some (.ofResponse () false)),
      (.calls, some (.ofResponse () false)), (.stays, some (.ofResponse () true)),
      (.calls, some (.ofResponse () true)), (.stays, some .tombstone)] := by
  have run : Run finishingClient (.initial []) lateComing.1 lateComing.2 :=
    World.run_runCalls _ _ _ 47
  obtain ⟨henacted, -, htold, hlate⟩ := observers_see_one_final_event run (by decide) 0
  have hfinal : ∀ event ∈ passEvents (history 0 lateComing.1), event.isLast →
      event = .ofResponse () true := by decide
  have told (id : Nat) (interest : Interest) (manner : Manner)
      (hjoined : .registered id interest manner ∈ history 0 lateComing.1)
      (hstays : ∀ happening ∈ history 0 lateComing.1, happening.loses (.observer id) = false) :
      (history 0 lateComing.1).filter (Happening.tells (.observer id)) =
        [.presented id manner (.ofResponse () true) .pass] := by
    obtain ⟨event, occasion, htells, ⟨rfl, hlast, entries, hbegun⟩ | ⟨-, -, hnone⟩⟩ :=
      htold (by decide) (by decide) id interest manner hjoined hstays
    · rw [htells, hfinal event (List.mem_filterMap.mpr ⟨_, hbegun, rfl⟩) hlast]
    · exact absurd rfl (hnone (.ofResponse () true) [.observer 1 .active .stays,
        .observer 3 .passive .calls] (by decide))
  -- the fourth observer is given the tombstone
  have call := lateComing.2.call_trace (t := 0) finishingClient 8 rfl (by decide) (by decide)
  obtain ⟨henacted', -, howed⟩ := hlate _ rfl (by decide) 0 _ _ _ _ _ call (by decide)
  exact ⟨_, _, _, call, ⟨_, rfl, trivial⟩, enacted_append.mpr ⟨henacted, henacted'⟩,
    told 1 .active .stays (by decide) (by decide), by decide,
    told 3 .passive .calls (by decide) (by decide), howed ⟨_, rfl, trivial⟩, by decide⟩

end Exchange
