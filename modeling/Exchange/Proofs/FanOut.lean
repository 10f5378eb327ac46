import Exchange.Proofs.Enactment
import Exchange.Proofs.Rounds

/-!
Passes fan events out. The callbacks that they run are those of the plain fan-out over their lists,
each list follows from the one before it, and the events that an observer sees follow on each other.
-/

namespace Exchange
set_option autoImplicit false

variable {M E K H : Type} {client : Client M E K H} {w : World M E K H}

/-- The event that the observer of that number is given in a pass. -/
def Happening.presentedTo? (id : Nat) : Happening M E K → Option (Event M E)
  | .presented other _ event .pass => if other = id then some event else none
  | _ => none

def seen (id : Nat) (history : List (Happening M E K)) : List (Event M E) :=
  history.filterMap (Happening.presentedTo? id)

section
variable {s s' : Standing M E K} {happenings history : List (Happening M E K)} {k : Key}

theorem passEvents_eq (history : List (Happening M E K)) :
    passEvents history = (rounds history).map Prod.fst := by
  rw [passEvents, rounds, List.map_filterMap]
  apply List.filterMap_congr
  intro happening _
  cases happening <;> rfl

theorem seen_passCalls (id : Nat) (history : List (Happening M E K)) :
    (passCalls history).filterMap (Happening.presentedTo? id) = seen id history := by
  rw [passCalls, List.filterMap_filter, seen]
  apply List.filterMap_congr
  intro happening _
  cases happening with
  | presented _ _ _ occasion => cases occasion <;> rfl
  | notified _ _ occasion => cases occasion <;> rfl
  | _ => rfl

theorem seen_fanOut (id : Nat) (event : Event M E) (entries : List (Entry K)) :
    (fanOut (event, entries)).filterMap (Happening.presentedTo? id) =
      List.replicate (listed (.observer id) entries) event := by
  induction entries with
  | nil => rfl
  | cons entry entries ih =>
    rw [fanOut_cons, List.filterMap_append, ih, listed_cons]
    cases entry with
    | observer other interest code =>
      by_cases hother : other = id
      · simp [Entry.heeds, Entry.given, Happening.presentedTo?, Entry.goesBy, hother,
          List.replicate_succ]
      · simp [Entry.heeds, Entry.given, Happening.presentedTo?, Entry.goesBy, hother]
    | ending ticket notice =>
      by_cases hlast : event.isLast <;>
        simp [Entry.heeds, Entry.given, Happening.presentedTo?, Entry.goesBy, hlast]

/-- The passes with the entry of that key on the list follow on each other. -/
structure Unbroken (k : Key) (history : List (Happening M E K)) (s : Standing M E K) : Prop where
  blocks : ∃ before during after, rounds history = before ++ during ++ after ∧
    (∀ round ∈ before ++ after, listed k round.2 = 0) ∧ (∀ round ∈ during, 0 < listed k round.2) ∧
    (0 < listed k s.entries → after = []) ∧ (¬s.Numbers k → during = [])

theorem Happening.Brings.joins {happening : Happening M E K} {entry : Entry K}
    (h : happening.Brings entry) (hk : entry.goesBy k) : happening.joins k := by
  cases entry with
  | observer =>
    obtain rfl := h.eq_registered
    exact hk
  | ending => rcases h.eq_awaited with rfl | rfl <;> exact hk

theorem Change.listed_entries (h : Change s happenings s') (hlisted : 0 < listed k s'.entries) :
    0 < listed k s.entries ∨ 0 < joined k happenings := by
  obtain ⟨entry, hentry, hk⟩ := List.countP_pos_iff.mp hlisted
  rcases h.entries entry hentry with hold | ⟨happening, hmem, hbrings⟩
  · exact .inl (List.countP_pos_iff.mpr ⟨entry, hold, hk⟩)
  · exact .inr (List.countP_pos_iff.mpr ⟨happening, hmem, hbrings.joins hk⟩)

theorem Course.numbers_of_listed (h : Course .initial history s)
    (hlisted : 0 < listed k s.entries) : s.Numbers k := by
  obtain ⟨entry, hentry, hk⟩ := List.countP_pos_iff.mp hlisted
  obtain ⟨happening, hmem, hbrings⟩ := h.entries_brought entry hentry
  have hjoined : 0 < joined k history := List.countP_pos_iff.mpr ⟨happening, hmem, hbrings.joins hk⟩
  by_cases hn : s.Numbers k
  · exact hn
  · have hfresh := h.tallied.fresh k hn
    omega

/-- A change begins no pass, or one with the entries that the point then has and had before. -/
theorem Change.rounds_eq (h : Change s happenings s') :
    rounds happenings = [] ∨
      ∃ event entries, rounds happenings = [(event, entries)] ∧ s'.entries = entries ∧
        joined k happenings = 0 := by
  by_cases hbegun : ∃ event entries, .begun event entries ∈ happenings
  · obtain ⟨event, entries, hmem⟩ := hbegun
    obtain ⟨hform, -, owner, queue, hphase⟩ := h.eq_begun hmem
    refine .inr ⟨event, entries, ?_, by simp [Standing.entries, hphase], ?_⟩
    · rcases hform with ⟨-, rfl⟩ | ⟨_, _, -, -, -, -, rfl⟩ <;> simp [rounds, List.filterMap_cons]
    · rcases hform with ⟨-, rfl⟩ | ⟨_, _, -, -, -, -, rfl⟩ <;> simp [Happening.joins]
  · apply Or.inl
    apply List.filterMap_eq_nil_iff.mpr
    intro happening hmem
    cases happening with
    | begun event entries => exact absurd ⟨event, entries, hmem⟩ hbegun
    | _ => rfl

theorem Course.unbroken (h : Course .initial history s) (k : Key) : Unbroken k history s := by
  induction h with
  | refl => exact ⟨[], [], [], rfl, by simp, by simp, by simp, by simp⟩
  | @step history happenings s s' course hchange ih =>
    obtain ⟨before, during, after, hrounds, hout, hin, hlast, hfresh⟩ := ih.blocks
    obtain ⟨hnumbers, hjoined⟩ := hchange.numbers k
    rcases hchange.rounds_eq (k := k) with hnone | ⟨event, entries, hone, hentries, hnobody⟩
    · by_cases hn : s.Numbers k
      · refine ⟨before, during, after, ?_, hout, hin, ?_, ?_⟩
        · rw [rounds_append, hnone, List.append_nil, hrounds]
        · intro hlisted
          apply hlast
          rcases hchange.listed_entries hlisted with hlisted | hpos
          · exact hlisted
          · rcases hjoined with hzero | ⟨-, hfree, -⟩
            · omega
            · exact absurd hn hfree
        · intro hn'
          exact absurd (hnumbers hn) hn'
      · -- the entry may join now, so the blocks begin anew
        refine ⟨before ++ after, [], [], ?_, ?_, by simp, fun _ => rfl, fun _ => rfl⟩
        · rw [rounds_append, hnone, hrounds, hfresh hn]
          simp
        · rw [List.append_nil]
          exact hout
    · have hkept (hlisted : 0 < listed k entries) : 0 < listed k s.entries :=
        (hchange.listed_entries (hentries.symm ▸ hlisted)).resolve_right (by omega)
      by_cases hlisted : 0 < listed k entries
      · have hnil := hlast (hkept hlisted)
        refine ⟨before, during ++ [(event, entries)], [], ?_, ?_, ?_, fun _ => rfl, ?_⟩
        · simp [hone, hrounds, hnil]
        · rw [← hnil]
          exact hout
        · intro round hround
          rcases List.mem_append.mp hround with hround | hround
          · exact hin round hround
          · rw [List.mem_singleton.mp hround]
            exact hlisted
        · intro hn
          exact absurd (hnumbers (course.numbers_of_listed (hkept hlisted))) hn
      · refine ⟨before, during, after ++ [(event, entries)], ?_, ?_, hin, ?_, ?_⟩
        · simp [hone, hrounds]
        · intro round hround
          rw [← List.append_assoc] at hround
          rcases List.mem_append.mp hround with hround | hround
          · exact hout round hround
          · rw [List.mem_singleton.mp hround]
            exact Nat.eq_zero_of_not_pos hlisted
        · intro h
          exact absurd (hentries ▸ h) hlisted
        · intro hn
          apply hfresh
          intro h
          exact hn (hnumbers h)

theorem seen_flatMap (id : Nat) {n : Nat} (rounds : List (Event M E × List (Entry K)))
    (h : ∀ round ∈ rounds, listed (.observer id) round.2 = n) :
    (rounds.flatMap fanOut).filterMap (Happening.presentedTo? id) =
      rounds.flatMap fun round => List.replicate n round.1 := by
  rw [List.filterMap_flatMap]
  apply List.flatMap_congr
  intro round hround
  rw [← h round hround, seen_fanOut]

/-- An observer sees the events of passes that follow on each other. -/
theorem Course.seen_infix (h : Course .initial history s) (id : Nat) :
    seen id history <:+: passEvents history := by
  obtain ⟨before, during, after, hrounds, hout, hin, -, -⟩ := (h.unbroken (.observer id)).blocks
  have hone : ∀ round ∈ during, listed (.observer id) round.2 = 1 := by
    intro round hround
    have hmem : round ∈ rounds history := by
      rw [hrounds]
      exact List.mem_append_left _ (List.mem_append_right _ hround)
    have hbegun : .begun round.1 round.2 ∈ history := by
      obtain ⟨happening, hbegun, hround⟩ := List.mem_filterMap.mp hmem
      cases happening <;> cases hround
      exact hbegun
    exact Nat.le_antisymm (h.listed_begun hbegun _) (hin round hround)
  have hnone (rounds : List (Event M E × List (Entry K)))
      (hrounds : ∀ round ∈ rounds, listed (.observer id) round.2 = 0) :
      (rounds.flatMap fanOut).filterMap (Happening.presentedTo? id) = [] := by
    rw [seen_flatMap id rounds hrounds]
    exact List.flatMap_eq_nil_iff.mpr fun _ _ => rfl
  have hbefore := hnone before fun round hround => hout round (List.mem_append_left _ hround)
  have hafter := hnone after fun round hround => hout round (List.mem_append_right _ hround)
  have hseen : ((rounds history).flatMap fanOut).filterMap (Happening.presentedTo? id) =
      during.map Prod.fst := by
    rw [hrounds, List.flatMap_append, List.flatMap_append, List.filterMap_append,
      List.filterMap_append, hbefore, hafter, seen_flatMap id during hone, List.nil_append,
      List.append_nil, List.map_eq_flatMap]
    rfl
  rw [← h.passCalls_eq, List.filterMap_append, seen_passCalls] at hseen
  refine ⟨before.map Prod.fst, s.remainder.filterMap (Happening.presentedTo? id) ++
    after.map Prod.fst, ?_⟩
  rw [passEvents_eq, hrounds, List.map_append, List.map_append, ← hseen]
  simp only [List.append_assoc]

end

/-- The callbacks run in the passes of a point are those of the plain fan-out over the lists with
which the passes begin. The first list is made by calls, and the next one is what has become of the
one before it. So an observer sees the events of passes that follow on each other. -/
theorem passes_fan_out {host : H} {trail : List (Moment M E K H)}
    (run : Run client (.initial host) trail w) (hr : SinksReturn trail) (p : Nat) :
    Enacted client p trail ∧
    passCalls (history p trail) <+: (rounds (history p trail)).flatMap fanOut ∧
    ((∀ owner pass, w.phase p ≠ .dispatching owner pass) →
      passCalls (history p trail) = (rounds (history p trail)).flatMap fanOut) ∧
    (∀ early late event entries, history p trail = early ++ .begun event entries :: late →
      rounds early = [] → entries = enlisted early) ∧
    (∀ early mid late event entries event' entries',
      history p trail = early ++ .begun event entries :: (mid ++ .begun event' entries' :: late) →
      rounds mid = [] → entries' = succeeding entries mid) ∧
    ∀ id, seen id (history p trail) <:+: passEvents (history p trail) := by
  obtain ⟨s, course, stands⟩ := run.course_of_initial hr p
  have hcalls := course.passCalls_eq
  refine ⟨run.enacted hr p, ⟨_, hcalls⟩, ?_, ?_, ?_, course.seen_infix⟩
  · intro hclosed
    have hnone : s.remainder = [] := by
      unfold Standing.remainder
      split
      · rename_i owner pass hopen
        exact absurd (stands.phase_eq.symm.trans hopen) (hclosed owner pass)
      · rfl
    rw [← hcalls, hnone, List.append_nil]
  · intro early late event entries heq hearly
    exact course.first_round heq hearly
  · intro early mid late event entries event' entries' heq hmid
    exact course.next_round heq hmid

/-- What the first observer does once it has its first event: it takes the second observer off the list, hands
a notice over and pushes a final event. -/
def meddling : List (Op Unit Unit Manner) :=
  [.unregister ⟨some 0, 2⟩, .atEnd 0 (.run .declines), .push 0 (.ofResponse () true)]

def meddled : List (Moment Unit Unit Manner Notes) × World Unit Unit Manner Notes :=
  World.runCalls (notingClient meddling) [] [.create "request" .recorder, .register 0 .active .calls,
    .register 0 .passive .stays, .atEnd 0 (.run .stays), .push 0 (.ofResponse () false)] 60

theorem passes_fan_out_meddled :
    Enacted (notingClient meddling) 0 meddled.1 ∧
    passCalls (history 0 meddled.1) =
      [.presented 1 .calls (.ofResponse () false) .pass,
        .presented 2 .stays (.ofResponse () false) .pass,
        .presented 1 .calls (.ofResponse () true) .pass, .notified 0 (.run .stays) .pass,
        .notified 1 (.run .declines) .pass] ∧
    seen 1 (history 0 meddled.1) <:+: [.ofResponse () false, .ofResponse () true] ∧
    meddled.2.host = [(.calls, some (.ofResponse () false)), (.stays, some (.ofResponse () false)),
      (.calls, some (.ofResponse () true)), (.stays, none), (.declines, none)] := by
  have run : Run (notingClient meddling) (.initial []) meddled.1 meddled.2 := World.run_runCalls _ _ _ 60
  obtain ⟨henacted, -, hcalls, -, -, hseen⟩ := passes_fan_out run (by decide) 0
  refine ⟨henacted, ?_, hseen 1, by decide⟩
  exact (hcalls nofun).trans (by decide)

end Exchange
