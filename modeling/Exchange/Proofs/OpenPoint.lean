import Exchange.Proofs.Chronicle
import Exchange.Proofs.Rounds

/-!
Points between calls. Observers stand on the list in the order of their numbers. A point that is
open although nobody holds it open has never been more than a list to which observers were added:
the first push or removal would have ended it.
-/

namespace Exchange
set_option autoImplicit false

variable {M E K H : Type} {client : Client M E K H} {w : World M E K H} {s s' : Standing M E K}

def observerIds (entries : List (Entry K)) : List Nat := entries.filterMap Entry.id?

section
variable (first second : List (Entry K)) (id n : Nat) (interest : Interest) (code : K)
  (notice : Notice K)

@[simp] theorem observerIds_nil : observerIds ([] : List (Entry K)) = [] := rfl

@[simp] theorem observerIds_append :
    observerIds (first ++ second) = observerIds first ++ observerIds second :=
  List.filterMap_append

@[simp] theorem observerIds_observer :
    observerIds (.observer id interest code :: first) = id :: observerIds first := rfl

@[simp] theorem observerIds_ending :
    observerIds (.ending n notice :: first) = observerIds first := rfl

end

theorem observerIds_sublist {first second : List (Entry K)} (h : first.Sublist second) :
    (observerIds first).Sublist (observerIds second) := h.filterMap _

/-- The notices that join at the end of a pass have no numbers. -/
theorem Pass.observerIds_newcomers (pass : Pass M E K) : observerIds pass.newcomers = [] := by
  apply List.filterMap_eq_nil_iff.mpr
  intro entry hentry
  obtain ⟨call, -, hjoined⟩ := List.mem_filterMap.mp hentry
  cases call with
  | ending ticket notice => exact Option.some.inj hjoined ▸ rfl
  | _ => cases hjoined

theorem Pass.observerIds_survivors (pass : Pass M E K) :
    (observerIds pass.survivors).Sublist (observerIds pass.kept) := by
  rw [survivors, observerIds_append, pass.observerIds_newcomers, List.append_nil]
  exact observerIds_sublist List.filter_sublist

/-! ## The order of the list -/

section
variable {happenings history : List (Happening M E K)} {entries : List (Entry K)}

namespace Standing

/-- The observers' numbers in the order of the list, those first that have had their turn. -/
def ids (s : Standing M E K) : List Nat :=
  match s.phase with
  | .listening entries => observerIds entries
  | .dispatching _ pass => observerIds (pass.kept ++ pass.waiting)
  | .ended _ => []

structure Ascending (s : Standing M E K) : Prop where
  first : 1 ≤ s.nextId
  sorted : s.ids.Pairwise (· < ·)
  given : ∀ id ∈ s.ids, 1 ≤ id ∧ id < s.nextId

theorem initial_ascending : (initial : Standing M E K).Ascending := by
  constructor <;> simp [initial, ids]

end Standing

theorem Phase.ids_advance {phase : Phase M E K} {entry : Entry K} {event : Event M E}
    (stays : Bool) {v v' : Service} {i n : Nat} (hdue : phase.due = some (entry, event)) :
    (Standing.ids ⟨phase.advance stays, v', i, n⟩).Sublist (Standing.ids ⟨phase, v, i, n⟩) := by
  cases phase with
  | listening => cases hdue
  | dispatching owner pass =>
    obtain ⟨rest, hwaiting, -, hadvance⟩ := Phase.advance_dispatching stays hdue
    rw [hadvance]
    apply observerIds_sublist
    dsimp only
    rw [hwaiting]
    cases stays with
    | true => simp
    | false => simp
  | ended => exact List.Sublist.refl _

/-- A change takes observers from the list, or adds one with the next number. -/
theorem Change.ids (h : Change s happenings s') :
    (s'.ids.Sublist s.ids ∧ s'.nextId = s.nextId) ∨
      (s'.ids = s.ids ++ [s.nextId] ∧ s'.nextId = s.nextId + 1) := by
  cases h with
  | registers => exact .inr ⟨by simp [Standing.ids], rfl⟩
  | awaits => exact .inl ⟨by simp [Standing.ids], rfl⟩
  | unregisters => exact .inl ⟨observerIds_sublist List.filter_sublist, rfl⟩
  | unregistersLast => exact .inl ⟨List.nil_sublist _, rfl⟩
  | pushes => exact .inl ⟨by simp [Standing.ids], rfl⟩
  | skips hdue => exact .inl ⟨Phase.ids_advance true hdue, rfl⟩
  | leaves stays hdue => exact .inl ⟨Phase.ids_advance stays hdue, rfl⟩
  | @reopens _ pass _ _ _ hwaiting hcommit =>
    obtain ⟨-, -, -, rfl⟩ := Pass.commit_listening hcommit
    refine .inl ⟨?_, rfl⟩
    simpa [Standing.ids, hwaiting] using pass.observerIds_survivors
  | @goesOn _ pass _ _ _ _ hwaiting hcommit =>
    obtain ⟨-, -, -, event, later, -, rfl⟩ := Pass.commit_dispatching hcommit
    refine .inl ⟨?_, rfl⟩
    simpa [Standing.ids, hwaiting] using pass.observerIds_survivors
  | ends => exact .inl ⟨List.nil_sublist _, rfl⟩
  | _ => exact .inl ⟨List.Sublist.refl _, rfl⟩

theorem Change.ascending (h : Change s happenings s') (hs : s.Ascending) : s'.Ascending := by
  rcases h.ids with ⟨hsub, hnext⟩ | ⟨hids, hnext⟩
  · refine ⟨hnext ▸ hs.first, hs.sorted.sublist hsub, ?_⟩
    intro id hid
    rw [hnext]
    exact hs.given id (hsub.subset hid)
  · refine ⟨by omega, ?_, ?_⟩
    · rw [hids]
      apply List.pairwise_append.mpr
      refine ⟨hs.sorted, List.pairwise_singleton _ _, ?_⟩
      intro id hid next hnew
      rw [List.mem_singleton.mp hnew]
      exact (hs.given id hid).2
    · intro id hid
      rw [hnext]
      rw [hids] at hid
      rcases List.mem_append.mp hid with hid | hid
      · have hgiven := hs.given id hid
        omega
      · have hfirst := hs.first
        rw [List.mem_singleton.mp hid]
        omega

theorem Course.ascending (h : Course .initial history s) : s.Ascending := by
  induction h with
  | refl => exact Standing.initial_ascending
  | step _ hchange ih => exact hchange.ascending ih

/-! ## Open points that nobody holds open -/

namespace Happening

def registers? : Happening M E K → Option (Entry K)
  | .registered id interest code => some (.observer id interest code)
  | _ => none

/-- An event is pushed, or an entry may be taken from the list. -/
def stirs : Happening M E K → Bool
  | .pushed _ _ | .unregistered _ | .left _ _ => true
  | _ => false

end Happening

/-- All that have been registered on the open point, first come first. -/
def registrations (history : List (Happening M E K)) : List (Entry K) :=
  history.filterMap Happening.registers?

@[simp] theorem registrations_append (early late : List (Happening M E K)) :
    registrations (early ++ late) = registrations early ++ registrations late :=
  List.filterMap_append

theorem passive_of_registrations (hfree : ¬heldOpen (registrations history)) {entry : Entry K}
    (hmem : entry ∈ registrations history) : ∃ id code, entry = .observer id .passive code := by
  obtain ⟨happening, -, hregisters⟩ := List.mem_filterMap.mp hmem
  cases happening with
  | registered id interest code =>
    cases hregisters
    cases interest with
    | active => exact absurd (List.any_eq_true.mpr ⟨_, hmem, rfl⟩) hfree
    | passive => exact ⟨id, code, rfl⟩
  | _ => cases hregisters

/-- Nothing has happened but that observers were added. -/
structure Dormant (history : List (Happening M E K)) (entries : List (Entry K)) : Prop where
  still : ∀ happening ∈ history, happening.stirs = false
  entries_eq : entries = registrations history

theorem Dormant.append (h : Dormant history entries) {happening : Happening M E K}
    (hstill : happening.stirs = false) {joined : List (Entry K)}
    (hjoined : registrations [happening] = joined) :
    Dormant (history ++ [happening]) (entries ++ joined) := by
  constructor
  · intro other hmem
    rcases List.mem_append.mp hmem with hmem | hmem
    · exact h.still other hmem
    · rw [List.mem_singleton.mp hmem]
      exact hstill
  · rw [registrations_append, ← h.entries_eq, hjoined]

theorem Dormant.aside (h : Dormant history entries) {happening : Happening M E K}
    (ha : happening.IsAside) : Dormant (history ++ [happening]) entries := by
  rw [← List.append_nil entries]
  rcases ha.eq with ⟨_, _, rfl⟩ | ⟨_, _, rfl⟩ | ⟨_, _, _, rfl⟩ | ⟨_, _, rfl⟩ <;>
    exact h.append rfl rfl

theorem heldOpen_append (first second : List (Entry K)) :
    heldOpen (first ++ second) = (heldOpen first || heldOpen second) := List.any_append

/-- A pass, and the removal of an observer, leave a point open only if somebody holds it open. -/
theorem Course.dormant (h : Course .initial history s) (hphase : s.phase = .listening entries)
    (hfree : ¬heldOpen entries) : Dormant history entries := by
  induction h generalizing entries with
  | refl =>
    cases hphase
    exact ⟨by simp, rfl⟩
  | @step history _ _ _ _ hchange ih =>
    cases hchange with
    | rests => simpa using ih hphase hfree
    | aside ha => exact (ih hphase hfree).aside ha
    | registers =>
      cases hphase
      rw [heldOpen_append, Bool.or_eq_true, not_or] at hfree
      exact (ih rfl hfree.1).append rfl rfl
    | awaits _ hheld =>
      cases hphase
      rw [heldOpen_append, Bool.or_eq_true] at hfree
      exact absurd (.inl hheld) hfree
    | awaitsNothing =>
      cases hphase
      rw [← List.append_nil entries]
      exact (ih rfl hfree).append rfl rfl
    | unregisters _ hheld =>
      cases hphase
      exact absurd hheld hfree
    | skips hdue => exact absurd hphase (Phase.advance_ne_listening hdue entries)
    | leaves _ hdue => exact absurd hphase (Phase.advance_ne_listening hdue entries)
    | calls hdue => exact absurd hphase (Phase.ne_listening_of_due hdue entries)
    | gives hdue => exact absurd hphase (Phase.ne_listening_of_due hdue entries)
    | reopens _ hcommit =>
      cases hphase
      obtain ⟨-, hheld, -, rfl⟩ := Pass.commit_listening hcommit
      exact absurd hheld hfree
    | _ => cases hphase

end

/-- Between calls a point is open or has ended. While it is open its observers stand in the order of
their numbers; and if nobody holds it open, nothing has been pushed or removed, and it has just those
entries that were registered, none of them a notice. -/
theorem points_rest_open_or_ended {host : H} {trail : List (Moment M E K H)} {p : Nat}
    (run : Run client (.initial host) trail w) (hr : SinksReturn trail) (hp : ¬w.IsServed p) :
    ((w.phase p).isListening ∨ (w.phase p).isEnded) ∧
    ∀ entries, w.phase p = .listening entries →
      ((observerIds entries).Pairwise (· < ·) ∧
        ∀ id ∈ observerIds entries, 1 ≤ id ∧ id < w.nextId p) ∧
      (¬heldOpen entries →
        (∀ happening ∈ history p trail, happening.stirs = false) ∧
        entries = registrations (history p trail) ∧
        ∀ entry ∈ entries, ∃ id code, entry = .observer id .passive code) ∧
      ((∃ entry ∈ entries, entry.isEnding) → heldOpen entries) := by
  obtain ⟨s, course, stands⟩ := run.course_of_initial hr p
  have hidle := stands.idle hp
  have hcoherent := course.coherent Standing.initial_coherent
  have hphase := stands.phase_eq
  refine ⟨?_, ?_⟩
  · cases h : w.phase p with
    | listening => exact .inl rfl
    | dispatching owner pass => exact absurd hidle (hcoherent.dispatching owner pass (hphase.trans h))
    | ended => exact .inr rfl
  intro entries h
  have hlistening := hphase.trans h
  have hfree (hfree : ¬heldOpen entries) :
      (∀ happening ∈ history p trail, happening.stirs = false) ∧
        entries = registrations (history p trail) ∧
        ∀ entry ∈ entries, ∃ id code, entry = .observer id .passive code := by
    obtain ⟨hstill, heq⟩ := course.dormant hlistening hfree
    refine ⟨hstill, heq, ?_⟩
    intro entry hmem
    exact passive_of_registrations (heq ▸ hfree) (heq ▸ hmem)
  refine ⟨?_, hfree, ?_⟩
  · have hascending := course.ascending
    have hids : s.ids = observerIds entries := by simp only [Standing.ids, hlistening]
    have hnext : s.nextId = w.nextId p := congrArg Standing.nextId stands.eq
    rw [← hids, ← hnext]
    exact ⟨hascending.sorted, hascending.given⟩
  · rintro ⟨entry, hmem, hending⟩
    by_contra hheld
    obtain ⟨id, code, rfl⟩ := (hfree hheld).2.2 entry hmem
    cases hending

theorem points_rest_open_or_ended_plain :
    [.observer 1 .passive true, .observer 2 .passive false] =
      registrations (history 0 (World.runCalls plainClient () [.create "request" .recorder,
        .register 0 .passive true, .register 0 .passive false] 40).1) := by
  have run := World.run_runCalls plainClient () [.create "request" .recorder,
    .register 0 .passive true, .register 0 .passive false] 40
  obtain ⟨-, h⟩ := points_rest_open_or_ended run (p := 0) (by decide) (by decide)
  obtain ⟨-, h, -⟩ := h _ rfl
  exact (h (by decide)).2.1

end Exchange
