import Exchange.Proofs.Call
import Exchange.Proofs.Enactment
import Exchange.Proofs.Finale
import Exchange.Proofs.Keeping

/-!
Every notice is given once, and not before it is due. One that comes when there is no interest is
given by the call itself; any other waits for the final event.
-/

namespace Exchange
set_option autoImplicit false

variable {M E K H : Type} {client : Client M E K H} {w w' w'' : World M E K H} {p n : Nat}
  {notice : Notice K}

namespace Happening

/-- A notice is handed over under that ticket. -/
def asks (n : Nat) : Happening M E K → Bool
  | .awaited ticket _ _ => ticket = n
  | _ => false

/-- The notice of that ticket is given, on whatever occasion. -/
def gives (n : Nat) : Happening M E K → Bool
  | .notified ticket _ _ => ticket = n
  | _ => false

/-- A final event starts to be delivered: the one of a pass, or the one that follows the loss of
interest. -/
def startsEnd : Happening M E K → Bool
  | .begun event _ => event.isLast
  | .ended _ _ => true
  | _ => false

end Happening

/-! ## Tickets -/

section
variable {happenings history : List (Happening M E K)} {s s' : Standing M E K}

theorem Change.tickets (h : Change s happenings s') (n : Nat) :
    s.nextTicket ≤ s'.nextTicket ∧
      (happenings.countP (Happening.asks n) = 0 ∨
        happenings.countP (Happening.asks n) = 1 ∧ n = s.nextTicket ∧ n < s'.nextTicket) := by
  have asked (i : Nat) (notice : Notice K) (reception : Reception) :
      let happenings : List (Happening M E K) := [.awaited i notice reception]
      i ≤ i + 1 ∧ (happenings.countP (Happening.asks n) = 0 ∨
        happenings.countP (Happening.asks n) = 1 ∧ n = i ∧ n < i + 1) := by
    refine ⟨Nat.le_succ i, ?_⟩
    by_cases hn : i = n
    · simp [Happening.asks, hn]
    · simp [Happening.asks, hn]
  cases h with
  | awaits notice => exact asked _ notice _
  | awaitsNothing notice => exact asked _ notice _
  | awaitsInside notice => exact asked _ notice _
  | awaitsLate notice => exact asked _ notice _
  | aside ha =>
    refine ⟨Nat.le_refl _, .inl ?_⟩
    rcases ha.eq with ⟨_, _, rfl⟩ | ⟨_, _, rfl⟩ | ⟨_, _, _, rfl⟩ | ⟨_, _, rfl⟩ <;> rfl
  | @gives _ _ _ entry =>
    refine ⟨Nat.le_refl _, .inl ?_⟩
    cases entry <;> rfl
  | _ => exact ⟨Nat.le_refl _, .inl rfl⟩

theorem Course.asked (h : Course .initial history s) (n : Nat) :
    history.countP (Happening.asks n) ≤ 1 ∧
      (s.nextTicket ≤ n → history.countP (Happening.asks n) = 0) := by
  induction h with
  | refl => simp
  | step _ hchange ih =>
    obtain ⟨hle, hasks⟩ := hchange.tickets n
    rw [List.countP_append]
    omega

/-- A notice joins the list, or is promised to be given. -/
theorem countP_asks (n : Nat) (history : List (Happening M E K)) :
    history.countP (Happening.asks n) =
      joined (.ticket n) history + (history.flatMap Happening.promises).count (.notice n) := by
  induction history with
  | nil => rfl
  | cons happening history ih =>
    rw [List.countP_cons, ih, joined_cons, List.flatMap_cons, List.count_append]
    cases happening with
    | awaited ticket notice reception =>
      by_cases hn : ticket = n
      · cases reception <;> simp [Happening.asks, Happening.joins, hn] <;> omega
      · cases reception <;> simp [Happening.asks, Happening.joins, hn]
    | pushed event reception => cases reception <;> simp [Happening.asks, Happening.joins]
    | emitted kind reason =>
      by_cases hk : kind = .lateEvent <;> simp [Happening.asks, Happening.joins, hk]
    | _ => simp [Happening.asks, Happening.joins]

/-- A notice that is given is told of the end, or a promise is kept. -/
theorem countP_gives (n : Nat) (history : List (Happening M E K)) :
    history.countP (Happening.gives n) =
      told (.ticket n) history + (history.flatMap Happening.keeps).count (.notice n) := by
  induction history with
  | nil => rfl
  | cons happening history ih =>
    rw [List.countP_cons, ih, told_cons, List.flatMap_cons, List.count_append]
    cases happening with
    | notified ticket notice occasion =>
      by_cases hn : ticket = n
      · cases occasion <;> simp [Happening.gives, Happening.tells, hn] <;> omega
      · cases occasion <;> simp [Happening.gives, Happening.tells, hn]
    | reported kind reason =>
      by_cases hk : kind = .lateEvent <;> simp [Happening.gives, Happening.tells, hk]
    | presented id code event occasion => simp [Happening.gives, Happening.tells]
    | _ => simp [Happening.gives, Happening.tells]

/-! ## Not before the end -/

theorem Course.ended_mem (h : Course .initial history s) (hended : s.phase.isEnded) :
    ∃ event entries, .ended event entries ∈ history := by
  induction h with
  | refl => cases hended
  | @step history happenings s s' course hchange ih =>
    have before (hended : s.phase.isEnded) :
        ∃ event entries, .ended event entries ∈ history ++ happenings := by
      obtain ⟨event, entries, hmem⟩ := ih hended
      exact ⟨event, entries, List.mem_append_left _ hmem⟩
    cases hchange with
    | rests => exact before hended
    | aside => exact before hended
    | unregistersLast =>
      exact ⟨_, _, List.mem_append_right _ (List.mem_cons_of_mem _ List.mem_cons_self)⟩
    | awaitsLate => exact before rfl
    | unregistersLate => exact before rfl
    | pushesLate => exact before rfl
    | calls => exact before hended
    | @skips phase => cases phase <;> first | exact before rfl | cases hended
    | gives => exact before hended
    | @leaves phase => cases phase <;> first | exact before rfl | cases hended
    | ends => exact ⟨_, _, List.mem_append_right _ List.mem_cons_self⟩
    | drops => exact before rfl
    | retires => exact before rfl
    | _ => cases hended

/-- Whoever is about to be told waits for an event that has started to be delivered. -/
theorem Course.started (h : Course .initial history s) {entry : Entry K} {event : Event M E}
    (hdue : s.phase.due = some (entry, event)) (hfinal : event.isLast) :
    ∃ happening ∈ history, happening.startsEnd := by
  have hfinale := h.finale
  obtain ⟨phase, v, i, n⟩ := s
  cases phase with
  | listening => cases hdue
  | dispatching owner pass =>
    obtain ⟨_, -, rfl, -⟩ := Phase.advance_dispatching true hdue
    obtain ⟨-, entries, hmem⟩ := hfinale.final hfinal
    exact ⟨_, hmem, hfinal⟩
  | ended farewell =>
    obtain ⟨event, entries, hmem⟩ := h.ended_mem rfl
    exact ⟨_, hmem, rfl⟩

/-- A notice on the list is given after a final event has started to be delivered. -/
theorem Course.gives_after (h : Course .initial history s) {early late : List (Happening M E K)}
    {occasion : Occasion} (heq : history = early ++ .notified n notice occasion :: late)
    (hcall : occasion ≠ .call) : ∃ happening ∈ early, happening.startsEnd := by
  have hturns : (Happening.notified n notice occasion : Happening M E K).turns (.ticket n) := by
    simp [Happening.turns, hcall]
  obtain ⟨now, entry, event, course, hdue, hcalling, hgiven⟩ := h.at_turn heq hturns
  have heeds := (course.coherent Standing.initial_coherent).heeds (.inl hcalling) hdue
  cases entry with
  | observer => cases hgiven
  | ending => exact course.started hdue heeds

/-- A notice that has joined the list is given once the end is over. -/
theorem Course.gives_of_joins (h : Course .initial history s) (hended : s.phase.isEnded)
    (hidle : s.service = .idle) {reception : Reception}
    (hmem : .awaited n notice reception ∈ history)
    (hjoins : (Happening.awaited n notice reception : Happening M E K).joins (.ticket n)) :
    ∃ occasion, .notified n notice occasion ∈ history := by
  have hstays : ∀ happening ∈ history, happening.loses (.ticket n) = false := by
    intro happening _
    cases happening with
    | left entry stays => cases entry <;> cases stays <;> simp [Happening.loses]
    | _ => simp [Happening.loses]
  obtain ⟨entry, event, occasion, hgiven, htells, other, hother, hbrings⟩ :=
    h.told_of_joins hended hidle hmem hjoins hstays
  cases entry with
  | observer => simp [Entry.given, Happening.tells] at htells
  | ending ticket notice' =>
    obtain ⟨-, rfl⟩ : occasion ≠ .call ∧ ticket = n := by
      simpa [Entry.given, Happening.tells] using htells
    have hsame : other = .awaited ticket notice reception := by
      refine h.tallied.eq_of_joins hother hmem ?_ hjoins
      rcases hbrings.eq_awaited with rfl | rfl <;> simp [Happening.joins]
    obtain rfl : notice' = notice := by
      rcases hbrings.eq_awaited with rfl | rfl <;> cases hsame <;> rfl
    exact ⟨occasion, hgiven⟩

end

/-! ## Calls that hand a notice over -/

/-- What a call owes that hands over a notice when there is no interest. -/
def Point.owed (p : Nat) (point : Point M E K) (notice : Notice K) : List (Act M E K) :=
  (if point.phase.isEnded then [point.report p .lateInterestEnd none] else []) ++
    [.notify point.nextTicket notice]

theorem Point.owed_isDue (p : Nat) (point : Point M E K) (notice : Notice K) :
    ∀ act ∈ point.owed p notice, act.IsDue := by
  unfold owed
  split <;> simp [Point.report, Act.IsDue]

theorem World.perform_atEnd_given {t : Nat} {point : Point M E K} {below : List (Frame M E K H)}
    {m : Move M E K H} (hp : w.points[p]? = some point) (hinterest : ¬point.phase.hasInterest)
    (hm : w.perform client t below (.atEnd p notice) = some m) :
    ∃ v, m = .acts v below p (point.owed p notice) .done := by
  cases hphase : point.phase <;>
    simp_all [perform, atEnd, Phase.access, Phase.isEnded, Phase.hasInterest, Point.owed]
  · exact ⟨_, hm.symm⟩
  · exact ⟨_, hm.symm⟩

theorem Call.thread?_eq {t : Nat} {below : List (Frame M E K H)} {op : Op M E K}
    {during : List (Moment M E K H)} (call : Call client t below op w during w') :
    w.thread? t = some ⟨t, .perform op, below⟩ := by
  induction call with
  | made ht => exact ht
  | step _ _ _ _ ih => exact ih
  | between _ _ _ ih => exact ih

theorem Call.history_eq {t : Nat} {below : List (Frame M E K H)} {op : Op M E K}
    {during : List (Moment M E K H)} (call : Call client t below op w during w') :
    ∃ rest, during = ⟨w, ⟨t, .perform op, below⟩⟩ :: rest ∧
      history p during = w.receives p op ++ history p rest := by
  have hhead : ∃ rest, during = ⟨w, ⟨t, .perform op, below⟩⟩ :: rest := by
    induction call with
    | made => exact ⟨[], rfl⟩
    | step _ _ _ _ ih =>
      obtain ⟨rest, rfl⟩ := ih
      exact ⟨_, rfl⟩
    | between _ _ _ ih => exact ih
  obtain ⟨rest, rfl⟩ := hhead
  exact ⟨rest, rfl, rfl⟩

section
variable {t : Nat} {point : Point M E K} {below : List (Frame M E K H)}
  {during : List (Moment M E K H)}
variable (call : Call client t below (.atEnd p notice) w during w') (hw : w.Sound)
variable (hp : w.points[p]? = some point)
include call hp

theorem Call.awaited_mem :
    .awaited point.nextTicket notice point.phase.receptionOfNotice ∈ history p during := by
  obtain ⟨rest, -, hhistory⟩ := call.history_eq (p := p)
  rw [hhistory]
  apply List.mem_append_left
  simp [World.receives, hp, Op.waitsFor?, Point.receives]

include hw

theorem Call.atEnd_kept (hinterest : point.phase.hasInterest) :
    during = [⟨w, ⟨t, .perform (.atEnd p notice), below⟩⟩] ∧ w'.IsBack t below := by
  apply call.eq_of_isBack
  intro next hstep
  obtain ⟨m, hm, hthread⟩ := World.thread?_of_step hw.orderly call.thread?_eq hstep
  have hended : ¬point.phase.isEnded := by
    cases hphase : point.phase <;> simp_all [Phase.isEnded, Phase.hasInterest]
  obtain ⟨world, rfl⟩ : ∃ world, m = .answer world below .done := by
    simp only [World.move, World.perform, hp, World.atEnd, if_neg hended, if_pos hinterest] at hm
    split at hm
    · cases hm
    · exact ⟨_, (Option.some.inj hm).symm⟩
    · exact ⟨_, (Option.some.inj hm).symm⟩
  exact ⟨_, hthread, trivial⟩

/-- Without interest the call itself gives the notice, and reports it if the point has ended. -/
theorem Call.atEnd_given (hr : SinksReturn during) (hinterest : ¬point.phase.hasInterest) :
    ownActs p t below during <+: point.owed p notice ∧
      (w'.IsBack t below → ownActs p t below during = point.owed p notice) := by
  have hdue := point.owed_isDue p notice
  have hfirst : ∀ m, w.perform client t below (.atEnd p notice) = some m →
      ∃ w', m = .acts w' below p (point.owed p notice) .done :=
    fun _ hm => World.perform_atEnd_given hp hinterest hm
  constructor
  · exact call.ownActs_prefix hw hr hdue hfirst
  · exact call.ownActs_eq hw hr hdue hfirst

end

theorem notified_of_ownActs {t : Nat} {below : List (Frame M E K H)}
    {during : List (Moment M E K H)} (h : .notify n notice ∈ ownActs p t below during) :
    .notified n notice .call ∈ history p during := by
  obtain ⟨⟨world, id, control, stack⟩, hmem, hown⟩ := List.mem_filterMap.mp h
  refine List.mem_flatMap.mpr ⟨_, hmem, ?_⟩
  unfold Moment.ownAct? at hown
  split at hown
  · rename_i hthread
    cases hthread
    split at hown
    · rename_i hsame
      cases hown
      simp [Moment.happenings, World.does, hsame.1]
    · cases hown
  · cases hown

section
variable {host : H} {trail : List (Moment M E K H)} (run : Run client (.initial host) trail w)
  (hr : SinksReturn trail)
include run hr

/-- As often as a notice has been given, it has been handed over. -/
theorem Run.gives_le_asks (p n : Nat) :
    (history p trail).countP (Happening.gives n) ≤ (history p trail).countP (Happening.asks n) ∧
      (history p trail).countP (Happening.asks n) ≤ 1 := by
  obtain ⟨s, course, -⟩ := run.course_of_initial hr p
  have hkept := (run.keeps_promises (p := p) hr).count_eq (.notice n)
  have htold := course.tallied.atMost (.ticket n)
  rw [List.count_append] at hkept
  refine ⟨?_, (course.asked n).1⟩
  rw [countP_asks, countP_gives]
  omega

/-- A notice that joins the list is not given by the call that hands it over. -/
theorem Run.not_given_by_call {happening : Happening M E K} (hmem : happening ∈ history p trail)
    (hjoins : happening.joins (.ticket n)) : .notified n notice .call ∉ history p trail := by
  intro hgiven
  have hasks := (run.gives_le_asks hr p n).2
  have hjoined : 0 < joined (.ticket n) (history p trail) :=
    List.countP_pos_iff.mpr ⟨happening, hmem, hjoins⟩
  have hkept := (run.keeps_promises (p := p) hr).count_eq (.notice n)
  have hkeeps : 0 < ((history p trail).flatMap Happening.keeps).count (.notice n) :=
    List.count_pos_iff.mpr (List.mem_flatMap.mpr ⟨_, hgiven, by simp⟩)
  rw [countP_asks] at hasks
  rw [List.count_append] at hkept
  omega

end

/-- Every notice is given at most once, and then its code is run or its task cancelled. Without interest
it is given by the call that hands it over, which reports it if the point has ended. Else that call
is over at once, the notice is not given before a final event starts to be delivered, and it is given
by the time the call that ended the point is over. -/
theorem notices_are_given_once {host : H} {trail during after : List (Moment M E K H)} {t : Nat}
    {below : List (Frame M E K H)} {point : Point M E K} (run : Run client (.initial host) trail w)
    (hp : w.points[p]? = some point) (call : Call client t below (.atEnd p notice) w during w')
    (later : Run client w' after w'') (hr : SinksReturn (trail ++ (during ++ after))) :
    Enacted client p (trail ++ (during ++ after)) ∧
    (history p (trail ++ (during ++ after))).countP (Happening.gives point.nextTicket) ≤ 1 ∧
    (¬point.phase.hasInterest →
      ownActs p t below during <+: point.owed p notice ∧
      (w'.IsBack t below → ownActs p t below during = point.owed p notice ∧
        (history p (trail ++ (during ++ after))).filter (Happening.gives point.nextTicket) =
          [.notified point.nextTicket notice .call])) ∧
    (point.phase.hasInterest →
      during = [⟨w, ⟨t, .perform (.atEnd p notice), below⟩⟩] ∧ w'.IsBack t below ∧
      (∀ early late notice occasion,
        history p (trail ++ (during ++ after)) = early ++
          .notified point.nextTicket notice occasion :: late →
        ∃ happening ∈ early, happening.startsEnd) ∧
      ((w''.phase p).isEnded → ¬w''.IsServed p → ∃ occasion,
        (history p (trail ++ (during ++ after))).filter (Happening.gives point.nextTicket) =
          [.notified point.nextTicket notice occasion])) := by
  have hw := World.initial_sound (M := M) (E := E) (K := K) host
  have whole := run.trans (call.run.trans later)
  obtain ⟨s, course, stands⟩ := whole.course_of_initial hr p
  obtain ⟨hbefore, hrest⟩ := sinksReturn_append.mp hr
  obtain ⟨hduring, -⟩ := sinksReturn_append.mp hrest
  have hsound := run.sound hw hbefore
  have inCall {happening : Happening M E K} (h : happening ∈ history p during) :
      happening ∈ history p (trail ++ (during ++ after)) := by
    rw [history_append, history_append]
    exact List.mem_append_right _ (List.mem_append_left _ h)
  obtain ⟨hle, hasks⟩ := whole.gives_le_asks hr p point.nextTicket
  have hone := Nat.le_trans hle hasks
  refine ⟨whole.enacted hr p, hone, ?_, ?_⟩
  · intro hinterest
    obtain ⟨howed, hall⟩ := call.atEnd_given hsound hp hduring hinterest
    refine ⟨howed, ?_⟩
    intro hback
    have hown : .notify point.nextTicket notice ∈ ownActs p t below during := by
      rw [hall hback]
      exact List.mem_append_right _ List.mem_cons_self
    have hgiven := inCall (notified_of_ownActs hown)
    exact ⟨hall hback, filter_eq_singleton hone hgiven (by simp [Happening.gives])⟩
  · intro hinterest
    have hasked := inCall (call.awaited_mem hp)
    have hjoins : (Happening.awaited point.nextTicket notice point.phase.receptionOfNotice :
        Happening M E K).joins (.ticket point.nextTicket) := by
      cases hphase : point.phase <;>
        simp_all [Phase.receptionOfNotice, Phase.hasInterest, Happening.joins]
    obtain ⟨heq, hback⟩ := call.atEnd_kept hsound hp hinterest
    refine ⟨heq, hback, ?_, ?_⟩
    · intro early late notice' occasion hsplit
      apply course.gives_after hsplit
      rintro rfl
      apply whole.not_given_by_call hr hasked hjoins
      rw [hsplit]
      exact List.mem_append_right _ List.mem_cons_self
    · intro hended hserved
      obtain ⟨occasion, hmem⟩ := course.gives_of_joins (stands.phase_eq ▸ hended)
        (stands.idle hserved) hasked hjoins
      exact ⟨occasion, filter_eq_singleton hone hmem (by simp [Happening.gives])⟩

/-- One notice waits for the end of the point, and one comes after it. -/
def awaitingEnd (fuel : Nat) : List (Moment Unit Unit Manner Notes) × World Unit Unit Manner Notes :=
  World.runCalls (notingClient []) [] [.create "request" .recorder, .register 0 .active .stays,
    .atEnd 0 (.run .stays), .push 0 (.ofResponse () true), .atEnd 0 (.run .declines)] fuel

theorem notices_are_given_once_noting :
    (∃ during w' occasion, Enacted (notingClient []) 0 ((awaitingEnd 7).1 ++ (during ++
        (World.trace (notingClient []) 60 w').1)) ∧
      (history 0 ((awaitingEnd 7).1 ++ (during ++ (World.trace (notingClient []) 60 w').1))).filter
        (Happening.gives 0) = [.notified 0 (.run .stays) occasion] ∧
      (World.trace (notingClient []) 60 w').2.host =
        [(.stays, some (.ofResponse () true)), (.stays, none), (.declines, none)]) ∧
    ∃ below during w', Call (notingClient []) 0 below (.atEnd 0 (.run .declines)) (awaitingEnd 25).2
        during w' ∧ w'.IsBack 0 below ∧
      ownActs 0 0 below during = [.report .recorder .lateInterestEnd (some "rendezvous#0") none,
        .notify 1 (.run .declines)] ∧
      (history 0 ((awaitingEnd 25).1 ++ (during ++ (World.trace (notingClient []) 20 w').1))).filter
        (Happening.gives 1) = [.notified 1 (.run .declines) .call] := by
  have run (fuel : Nat) : Run (notingClient []) (.initial []) (awaitingEnd fuel).1
      (awaitingEnd fuel).2 := World.run_runCalls _ _ _ fuel
  constructor
  · have call := (awaitingEnd 7).2.call_trace (t := 0) (notingClient []) 0 rfl (by decide) (by decide)
    obtain ⟨henacted, -, -, hgiven⟩ := notices_are_given_once (run 7) (p := 0) rfl call
      (World.run_trace _ 60 _) (by decide)
    obtain ⟨-, -, -, hgiven⟩ := hgiven (by decide)
    obtain ⟨occasion, hgiven⟩ := hgiven (by decide) (by decide)
    exact ⟨_, _, occasion, henacted, hgiven, by decide⟩
  · have call := (awaitingEnd 25).2.call_trace (t := 0) (notingClient []) 8 rfl (by decide) (by decide)
    obtain ⟨-, -, hgiven, -⟩ := notices_are_given_once (run 25) (p := 0) rfl call
      (World.run_trace _ 20 _) (by decide)
    obtain ⟨-, hgiven⟩ := hgiven (by decide)
    obtain ⟨howed, hgiven⟩ := hgiven ⟨_, rfl, trivial⟩
    exact ⟨_, _, _, call, ⟨_, rfl, trivial⟩, howed, hgiven⟩

end Exchange
