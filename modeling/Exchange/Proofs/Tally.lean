import Exchange.Proofs.Commit
import Exchange.Proofs.Standing

/-!
Who has joined a point and who has been told of its end. An entry that joins is told once by a final
event, or is still to be told, or has been lost before; only observers get lost, by their own doing.
-/

namespace Exchange
set_option autoImplicit false

variable {M E K : Type} {s s' : Standing M E K} {happenings : List (Happening M E K)}

/-- By what an entry is known. -/
inductive Key where
  | observer (id : Nat)
  | ticket (n : Nat)
deriving DecidableEq

def Entry.goesBy (k : Key) : Entry K → Bool
  | .observer id _ _ => Key.observer id = k
  | .ending n _ => Key.ticket n = k

/-- How often the entry of that key is on a list. -/
def listed (k : Key) (entries : List (Entry K)) : Nat := entries.countP (Entry.goesBy k)

namespace Happening

/-- The entry joins the list, or will at the end of the pass. -/
def joins (k : Key) : Happening M E K → Bool
  | .registered id _ _ => Key.observer id = k
  | .awaited n _ .taken | .awaited n _ .putOff => Key.ticket n = k
  | _ => false

/-- The entry has its turn with a final event. -/
def tells (k : Key) : Happening M E K → Bool
  | .presented id _ event occasion => occasion ≠ .call && event.isLast && Key.observer id = k
  | .notified n _ occasion => occasion ≠ .call && Key.ticket n = k
  | _ => false

/-- The entry gives up its place, or loses it. -/
def loses (k : Key) : Happening M E K → Bool
  | .unregistered id => Key.observer id = k
  | .left (.observer id _ _) false => Key.observer id = k
  | _ => false

end Happening

def joined (k : Key) (history : List (Happening M E K)) : Nat := history.countP (Happening.joins k)

def told (k : Key) (history : List (Happening M E K)) : Nat := history.countP (Happening.tells k)

section Counts
variable (k : Key) (entry : Entry K) (first second : List (Entry K))
  (early late : List (Happening M E K))

@[simp] theorem listed_nil : listed k ([] : List (Entry K)) = 0 := rfl

@[simp] theorem listed_append : listed k (first ++ second) = listed k first + listed k second :=
  List.countP_append

@[simp] theorem listed_cons :
    listed k (entry :: first) = listed k first + if entry.goesBy k then 1 else 0 := by
  simp [listed, List.countP_cons]

@[simp] theorem joined_nil : joined k ([] : List (Happening M E K)) = 0 := rfl

@[simp] theorem joined_cons (happening : Happening M E K) :
    joined k (happening :: late) = joined k late + if happening.joins k then 1 else 0 :=
  List.countP_cons

@[simp] theorem told_cons (happening : Happening M E K) :
    told k (happening :: late) = told k late + if happening.tells k then 1 else 0 :=
  List.countP_cons

@[simp] theorem joined_append : joined k (early ++ late) = joined k early + joined k late :=
  List.countP_append

@[simp] theorem told_nil : told k ([] : List (Happening M E K)) = 0 := rfl

@[simp] theorem told_append : told k (early ++ late) = told k early + told k late :=
  List.countP_append

end Counts

/-- What happens at most once and has happened is all that has happened of its kind. -/
theorem filter_eq_singleton {α : Type} {q : α → Bool} {l : List α} {a : α}
    (hone : l.countP q ≤ 1) (ha : a ∈ l) (hq : q a) : l.filter q = [a] := by
  have hmem : a ∈ l.filter q := List.mem_filter.mpr ⟨ha, hq⟩
  have hpos : 0 < (l.filter q).length := List.length_pos_of_mem hmem
  rw [List.countP_eq_length_filter] at hone
  obtain ⟨b, hb⟩ := List.length_eq_one_iff.mp (Nat.le_antisymm hone hpos)
  rw [hb, List.mem_singleton] at hmem
  rw [hb, hmem]

namespace Standing

def removals (s : Standing M E K) : List Nat :=
  match s.phase with
  | .dispatching _ pass => pass.removals
  | _ => []

/-- The entries still to be told, when these wait. -/
def untold (s : Standing M E K) (waiting : List (Entry K)) : List (Entry K) :=
  if s.service = .engaged then waiting.tail else waiting

/-- The entries that are still to be told of the end. -/
def pending (s : Standing M E K) : List (Entry K) :=
  match s.phase with
  | .listening entries => entries
  | .dispatching _ pass =>
    (if pass.event.isLast then s.untold pass.waiting else pass.waiting ++ pass.kept) ++
      pass.newcomers
  | .ended farewell => s.untold farewell.waiting

/-- A final event leaves no notice on the list; only a final event is delivered after the end. -/
structure Tidy (s : Standing M E K) : Prop where
  kept : ∀ t pass, s.phase = .dispatching t pass → pass.event.isLast →
    ∀ entry ∈ pass.kept, ¬entry.isEnding
  last : ∀ farewell, s.phase = .ended farewell → farewell.event.isLast

theorem initial_tidy : (initial : Standing M E K).Tidy := ⟨by simp [initial], by simp [initial]⟩

theorem heeds_of_isLast {event : Event M E} (h : event.isLast) (entry : Entry K) :
    entry.heeds event := by
  cases entry <;> simp [Entry.heeds, h]

end Standing

theorem listed_without (k : Key) (id : Nat) (entries : List (Entry K)) :
    listed k (without id entries) = if Key.observer id = k then 0 else listed k entries := by
  unfold listed without
  rw [List.countP_filter]
  split
  · rename_i hthat
    apply List.countP_eq_zero.mpr
    intro entry _
    cases entry <;> simp [Entry.goesBy, Entry.id?, ← hthat]
  · rename_i hother
    apply List.countP_congr
    intro entry _
    cases entry with
    | observer other interest code =>
      have hne : Key.observer other = k → other ≠ id := by
        rintro rfl rfl
        exact hother rfl
      simpa [Entry.goesBy, Entry.id?] using hne
    | ending n notice => simp [Entry.goesBy, Entry.id?]

namespace Pass
variable {pass : Pass M E K}

theorem listed_survivors (k : Key) :
    ∃ lost, listed k pass.survivors + lost = listed k pass.kept + listed k pass.newcomers ∧
      ((∀ id ∈ pass.removals, Key.observer id ≠ k) → lost = 0) := by
  refine ⟨listed k (pass.kept.filter (·.isAmong pass.removals)), ?_, ?_⟩
  · have hkept :=
      List.countP_eq_countP_filter_add pass.kept (Entry.goesBy k) (·.isAmong pass.removals)
    have hsum :=
      listed_append k (pass.kept.filter fun entry => !entry.isAmong pass.removals) pass.newcomers
    simp only [survivors, listed] at hkept hsum ⊢
    omega
  · intro hnot
    apply List.countP_eq_zero.mpr
    intro entry hentry
    have hamong := (List.mem_filter.mp hentry).2
    cases entry with
    | observer id interest code =>
      have hid : id ∈ pass.removals := by simpa [Entry.isAmong] using hamong
      simpa [Entry.goesBy] using hnot id hid
    | ending n notice => simp [Entry.isAmong] at hamong

/-- After a final event those who stay and have not been told are the notices that were put off. -/
theorem survivors_endings (h : ∀ entry ∈ pass.kept, ¬entry.isEnding) :
    pass.survivors.filter Entry.isEnding = pass.newcomers := by
  have hkept :
      (pass.kept.filter fun entry => !entry.isAmong pass.removals).filter Entry.isEnding = [] := by
    apply List.filter_eq_nil_iff.mpr
    intro entry hentry
    exact h entry (List.mem_filter.mp hentry).1
  have hnew : pass.newcomers.filter Entry.isEnding = pass.newcomers := by
    apply List.filter_eq_self.mpr
    intro entry hentry
    obtain ⟨call, -, hcall⟩ := List.mem_filterMap.mp hentry
    cases call <;> cases hcall
    rfl
  rw [survivors, List.filter_append, hkept, hnew, List.nil_append]

end Pass

/-! ## What a change does -/

theorem Phase.advance_dispatching {owner : Nat} {pass : Pass M E K} {entry : Entry K}
    {event : Event M E} (stays : Bool)
    (h : (Phase.dispatching owner pass).due = some (entry, event)) :
    ∃ rest, pass.waiting = entry :: rest ∧ event = pass.event ∧
      (Phase.dispatching owner pass).advance stays = .dispatching owner { pass with
        waiting := rest, kept := if stays then pass.kept ++ [entry] else pass.kept } := by
  obtain ⟨e, waiting, kept, postponed, queue⟩ := pass
  cases waiting with
  | nil => cases h
  | cons first rest =>
    cases h
    exact ⟨rest, rfl, rfl, rfl⟩

theorem Phase.advance_ended {farewell : Farewell M E K} {entry : Entry K} {event : Event M E}
    (stays : Bool) (h : (Phase.ended farewell).due = some (entry, event)) :
    ∃ rest, farewell.waiting = entry :: rest ∧ event = farewell.event ∧
      (Phase.ended farewell).advance stays = .ended { farewell with waiting := rest } := by
  obtain ⟨e, waiting, late⟩ := farewell
  cases waiting with
  | nil => cases h
  | cons first rest =>
    cases h
    exact ⟨rest, rfl, rfl, rfl⟩

theorem Change.tidy (h : Change s happenings s') (hc : s.Coherent) (ht : s.Tidy) : s'.Tidy := by
  obtain ⟨hkept, hlast⟩ := ht
  cases h with
  | rests => exact ⟨hkept, hlast⟩
  | aside => exact ⟨hkept, hlast⟩
  | unregistersLast => exact ⟨by simp, by simp [Event.tombstone]⟩
  | awaitsInside => exact ⟨by simpa using hkept, by simp⟩
  | unregistersInside => exact ⟨by simpa using hkept, by simp⟩
  | pushesInside => exact ⟨by simpa using hkept, by simp⟩
  | calls => exact ⟨hkept, hlast⟩
  | gives => exact ⟨hkept, hlast⟩
  | awaitsLate => exact ⟨by simp, hlast⟩
  | unregistersLate => exact ⟨by simp, hlast⟩
  | pushesLate => exact ⟨by simp, hlast⟩
  | @skips phase _ _ _ _ hdue heeds =>
    cases phase with
    | listening => cases hdue
    | dispatching owner pass =>
      obtain ⟨rest, -, rfl, hadvance⟩ := Phase.advance_dispatching _ hdue
      rw [hadvance]
      refine ⟨?_, by simp⟩
      rintro _ _ ⟨⟩ hfinal
      exact absurd (Standing.heeds_of_isLast hfinal _) heeds
    | ended farewell =>
      obtain ⟨rest, -, rfl, hadvance⟩ := Phase.advance_ended true hdue
      exact absurd (Standing.heeds_of_isLast (hlast _ rfl) _) heeds
  | @leaves phase _ _ entry _ stays hdue hstays =>
    cases phase with
    | listening => cases hdue
    | dispatching owner pass =>
      obtain ⟨rest, -, rfl, hadvance⟩ := Phase.advance_dispatching _ hdue
      rw [hadvance]
      refine ⟨?_, by simp⟩
      rintro _ _ ⟨⟩ hfinal other hother
      have hpass := hkept owner pass rfl hfinal
      cases stays with
      | false => exact hpass other hother
      | true =>
        rcases List.mem_append.mp hother with hother | hother
        · exact hpass other hother
        · rw [List.mem_singleton.mp hother]
          exact hstays rfl
    | ended farewell =>
      obtain ⟨rest, -, rfl, hadvance⟩ := Phase.advance_ended stays hdue
      rw [hadvance]
      refine ⟨by simp, ?_⟩
      rintro _ ⟨⟩
      exact hlast farewell rfl
  | goesOn _ hcommit =>
    obtain ⟨-, -, rfl, event, later, -, rfl⟩ := Pass.commit_dispatching hcommit
    constructor <;> simp
  | ends _ hcommit =>
    refine ⟨by simp, ?_⟩
    rintro _ ⟨⟩
    rcases Pass.commit_ended hcommit with ⟨hfinal, rfl⟩ | ⟨-, -, rfl⟩
    · exact hfinal
    · rfl
  | @drops last event late =>
    refine ⟨by simp, ?_⟩
    rintro _ ⟨⟩
    exact hlast ⟨last, [], event :: late⟩ rfl
  | retires => exact ⟨hkept, hlast⟩
  | _ => constructor <;> simp

section
variable (k : Key) {i n : Nat} {v : Service} {entries : List (Entry K)}

@[simp] theorem Standing.pending_listening :
    (⟨.listening entries, v, i, n⟩ : Standing M E K).pending = entries := rfl

@[simp] theorem Standing.pending_ended {farewell : Farewell M E K} :
    (⟨.ended farewell, v, i, n⟩ : Standing M E K).pending =
      if v = .engaged then farewell.waiting.tail else farewell.waiting := rfl

@[simp] theorem Standing.pending_dispatching {owner : Nat} {pass : Pass M E K} :
    (⟨.dispatching owner pass, v, i, n⟩ : Standing M E K).pending =
      (if pass.event.isLast then (if v = .engaged then pass.waiting.tail else pass.waiting)
        else pass.waiting ++ pass.kept) ++ pass.newcomers := rfl

end

theorem Phase.occasion_ne_call (phase : Phase M E K) : phase.occasion ≠ .call := by
  cases phase <;> simp [Phase.occasion]

@[simp] theorem Happening.joins_given (k : Key) (entry : Entry K) (event : Event M E)
    (occasion : Occasion) : (entry.given event occasion).joins k = false := by
  cases entry <;> rfl

theorem Happening.tells_given (k : Key) {entry : Entry K} {event : Event M E} {occasion : Occasion}
    (ho : occasion ≠ .call) (heeds : entry.heeds event) :
    (entry.given event occasion).tells k = (event.isLast && entry.goesBy k) := by
  cases entry <;> simp_all [Entry.given, Happening.tells, Entry.heeds, Entry.goesBy]

theorem Standing.Coherent.heeds {phase : Phase M E K} {v : Service} {i n : Nat} {entry : Entry K}
    {event : Event M E} (hc : (⟨phase, v, i, n⟩ : Standing M E K).Coherent)
    (hv : v = .calling ∨ v = .engaged) (hdue : phase.due = some (entry, event)) :
    entry.heeds event := by
  obtain ⟨other, event', hdue', heeds⟩ := hc.turn hv
  cases hdue.symm.trans hdue'
  exact heeds

/-- Between those who join, those who are told and those who are still to be told the difference is
those who get lost. -/
theorem Change.tally (h : Change s happenings s') (hc : s.Coherent) (ht : s.Tidy) (k : Key) :
    ∃ lost,
      told k happenings + listed k s'.pending + lost =
        joined k happenings + listed k s.pending ∧
      ((∀ happening ∈ happenings, happening.loses k = false) →
        (∀ id ∈ s.removals, Key.observer id ≠ k) → lost = 0) := by
  cases h with
  | rests => exact ⟨0, by simp, by simp⟩
  | aside ha =>
    refine ⟨0, ?_, by simp⟩
    rcases ha.eq with ⟨_, _, rfl⟩ | ⟨_, _, rfl⟩ | ⟨_, _, _, rfl⟩ | ⟨_, _, rfl⟩ <;> rfl
  | registers interest code =>
    refine ⟨0, ?_, by simp⟩
    simp [Happening.tells, Happening.joins, Entry.goesBy, Nat.add_comm]
  | awaits notice hopen =>
    refine ⟨0, ?_, by simp⟩
    simp [Happening.tells, Happening.joins, Entry.goesBy, Nat.add_comm]
  | awaitsNothing notice hopen =>
    refine ⟨0, ?_, by simp⟩
    simp [Happening.tells, Happening.joins]
  | @unregisters entries i n id hopen =>
    refine ⟨listed k entries - listed k (without id entries), ?_, ?_⟩
    · simp [Happening.tells, Happening.joins, listed_without]
      split <;> omega
    · intro hl _
      have hl := hl _ List.mem_cons_self
      simp only [Happening.loses, decide_eq_false_iff_not] at hl
      simp [listed_without, hl]
  | @unregistersLast entries i n id hopen =>
    refine ⟨listed k entries - listed k (without id entries), ?_, ?_⟩
    · simp [Happening.tells, Happening.joins, listed_without]
      split <;> omega
    · intro hl _
      have hl := hl _ List.mem_cons_self
      simp only [Happening.loses, decide_eq_false_iff_not] at hl
      simp [listed_without, hl]
  | pushes t event =>
    refine ⟨0, ?_, by simp⟩
    simp [Happening.tells, Happening.joins]
  | @awaitsInside t pass v i n notice =>
    refine ⟨0, ?_, by simp⟩
    simp [Happening.tells, Happening.joins, Postponed.joined?, Entry.goesBy]
    omega
  | unregistersInside id =>
    refine ⟨0, ?_, by simp⟩
    simp [Happening.tells, Happening.joins, Postponed.joined?]
  | pushesInside event =>
    refine ⟨0, ?_, by simp⟩
    simp [Happening.tells, Happening.joins, Postponed.joined?]
  | awaitsLate notice => exact ⟨0, by simp [Happening.tells, Happening.joins], by simp⟩
  | unregistersLate id => exact ⟨0, by simp [Happening.tells, Happening.joins], by simp⟩
  | pushesLate event => exact ⟨0, by simp [Happening.tells, Happening.joins], by simp⟩
  | @calls phase i n entry event hdue heeds =>
    refine ⟨0, ?_, by simp⟩
    cases phase <;> simp
  | @skips phase i n entry event hdue heeds =>
    refine ⟨0, ?_, by simp⟩
    cases phase with
    | listening => cases hdue
    | dispatching owner pass =>
      obtain ⟨rest, hwaiting, rfl, hadvance⟩ := Phase.advance_dispatching true hdue
      have hfinal : ¬pass.event.isLast := fun h => heeds (Standing.heeds_of_isLast h _)
      simp only [hadvance, Standing.pending_dispatching]
      simp [hwaiting, hfinal, Pass.newcomers]
      omega
    | ended farewell =>
      obtain ⟨rest, -, rfl, -⟩ := Phase.advance_ended true hdue
      exact absurd (Standing.heeds_of_isLast (ht.last _ rfl) _) heeds
  | @gives phase i n entry event hdue =>
    refine ⟨0, ?_, by simp⟩
    have heeds := hc.heeds (.inl rfl) hdue
    have htells := Happening.tells_given k phase.occasion_ne_call heeds
    cases phase with
    | listening => cases hdue
    | dispatching owner pass =>
      obtain ⟨rest, hwaiting, rfl, -⟩ := Phase.advance_dispatching true hdue
      by_cases hfinal : pass.event.isLast
      · simp [htells, hwaiting, hfinal]
        omega
      · simp [htells, hfinal]
    | ended farewell =>
      obtain ⟨rest, hwaiting, rfl, -⟩ := Phase.advance_ended true hdue
      simp [htells, hwaiting, ht.last _ rfl]
      omega
  | @leaves phase i n entry event stays hdue hstays =>
    have heeds := hc.heeds (.inr rfl) hdue
    cases phase with
    | listening => cases hdue
    | dispatching owner pass =>
      obtain ⟨rest, hwaiting, rfl, hadvance⟩ := Phase.advance_dispatching stays hdue
      simp only [hadvance, Standing.pending_dispatching, hwaiting]
      by_cases hfinal : pass.event.isLast
      · exact ⟨0, by simp [hfinal, Happening.tells, Happening.joins, Pass.newcomers], by simp⟩
      · cases stays with
        | true =>
          refine ⟨0, ?_, by simp⟩
          simp [hfinal, Happening.tells, Happening.joins, Pass.newcomers]
          omega
        | false =>
          refine ⟨if entry.goesBy k then 1 else 0, ?_, ?_⟩
          · simp [hfinal, Happening.tells, Happening.joins, Pass.newcomers]
          · intro hl _
            have hl := hl _ List.mem_cons_self
            cases entry with
            | observer id interest code => simpa [Happening.loses, Entry.goesBy] using hl
            | ending n notice => exact absurd heeds hfinal
    | ended farewell =>
      obtain ⟨rest, hwaiting, rfl, hadvance⟩ := Phase.advance_ended stays hdue
      simp only [hadvance, Standing.pending_ended, hwaiting]
      exact ⟨0, by simp [Happening.tells, Happening.joins], by simp⟩
  | reopens hwaiting hcommit =>
    obtain ⟨hfinal, -, -, rfl⟩ := Pass.commit_listening hcommit
    obtain ⟨lost, hsum, hlost⟩ := Pass.listed_survivors k
    exact ⟨lost, by simp [hfinal, hwaiting, hsum], fun _ => hlost⟩
  | goesOn hwaiting hcommit =>
    obtain ⟨hfinal, -, rfl, event, later, -, rfl⟩ := Pass.commit_dispatching hcommit
    obtain ⟨lost, hsum, hlost⟩ := Pass.listed_survivors k
    refine ⟨lost, ?_, fun _ => hlost⟩
    simp [hfinal, hwaiting, hsum, Happening.tells, Happening.joins]
  | ends hwaiting hcommit =>
    rcases Pass.commit_ended hcommit with ⟨hfinal, rfl⟩ | ⟨hfinal, -, rfl⟩
    · refine ⟨0, ?_, by simp⟩
      simp [hfinal, hwaiting, Pass.survivors_endings (ht.kept _ _ rfl hfinal), Happening.tells,
        Happening.joins]
    · obtain ⟨lost, hsum, hlost⟩ := Pass.listed_survivors k
      refine ⟨lost, ?_, fun _ => hlost⟩
      simp [hfinal, hwaiting, hsum, Happening.tells, Happening.joins]
  | drops => exact ⟨0, by simp [Happening.tells, Happening.joins], by simp⟩
  | retires => exact ⟨0, by simp, by simp⟩

/-! ## Along a course -/

def Standing.Numbers (s : Standing M E K) : Key → Prop
  | .observer id => id < s.nextId
  | .ticket n => n < s.nextTicket

theorem Standing.numbers_awaited {phase phase' : Phase M E K} {v v' : Service} {i n : Nat}
    (notice : Notice K) (reception : Reception) (k : Key) :
    ((⟨phase, v, i, n⟩ : Standing M E K).Numbers k →
      (⟨phase', v', i, n + 1⟩ : Standing M E K).Numbers k) ∧
    (joined k ([.awaited n notice reception] : List (Happening M E K)) = 0 ∨
      joined k ([.awaited n notice reception] : List (Happening M E K)) = 1 ∧
        ¬(⟨phase, v, i, n⟩ : Standing M E K).Numbers k ∧
        (⟨phase', v', i, n + 1⟩ : Standing M E K).Numbers k) := by
  by_cases hk : Key.ticket n = k
  · subst hk
    refine ⟨by simp [Numbers], ?_⟩
    cases reception <;> simp [Happening.joins, Numbers]
  · refine ⟨?_, .inl (by cases reception <;> simp [Happening.joins, hk])⟩
    cases k <;> simp only [Numbers] <;> omega

/-- A key is given out to each who joins, and to nobody else. -/
theorem Change.numbers (h : Change s happenings s') (k : Key) :
    (s.Numbers k → s'.Numbers k) ∧
      (joined k happenings = 0 ∨ joined k happenings = 1 ∧ ¬s.Numbers k ∧ s'.Numbers k) := by
  cases h with
  | @registers entries i n interest code =>
    by_cases hk : Key.observer i = k
    · subst hk
      exact ⟨by simp [Standing.Numbers], .inr (by simp [Happening.joins, Standing.Numbers])⟩
    · refine ⟨?_, .inl (by simp [Happening.joins, hk])⟩
      cases k <;> simp only [Standing.Numbers] <;> omega
  | awaits notice => exact Standing.numbers_awaited notice .taken k
  | awaitsNothing notice => exact Standing.numbers_awaited notice .atOnce k
  | awaitsInside notice => exact Standing.numbers_awaited notice .putOff k
  | awaitsLate notice => exact Standing.numbers_awaited notice .late k
  | aside ha =>
    refine ⟨id, .inl ?_⟩
    rcases ha.eq with ⟨_, _, rfl⟩ | ⟨_, _, rfl⟩ | ⟨_, _, _, rfl⟩ | ⟨_, _, rfl⟩ <;> rfl
  | gives => exact ⟨id, .inl (by simp)⟩
  | _ => exact ⟨id, .inl rfl⟩

theorem Change.removals (h : Change s happenings s') :
    ∀ id ∈ s'.removals, id ∈ s.removals ∨ .unregistered id ∈ happenings := by
  cases h with
  | awaitsInside =>
    intro id hid
    left
    simpa [Standing.removals, Postponed.removed?] using hid
  | pushesInside =>
    intro id hid
    left
    simpa [Standing.removals, Postponed.removed?] using hid
  | unregistersInside =>
    intro id hid
    simpa [Standing.removals, Postponed.removed?] using hid
  | @skips phase _ _ _ _ hdue =>
    intro id hid
    cases phase with
    | dispatching =>
      obtain ⟨_, -, -, hadvance⟩ := Phase.advance_dispatching true hdue
      left
      simpa [Standing.removals, hadvance, Pass.removals] using hid
    | _ => simp [Standing.removals, Phase.advance] at hid
  | @leaves phase _ _ _ _ stays hdue =>
    intro id hid
    cases phase with
    | dispatching =>
      obtain ⟨_, -, -, hadvance⟩ := Phase.advance_dispatching stays hdue
      left
      simpa [Standing.removals, hadvance, Pass.removals] using hid
    | _ => simp [Standing.removals, Phase.advance] at hid
  | goesOn _ hcommit =>
    obtain ⟨-, -, -, event, later, -, rfl⟩ := Pass.commit_dispatching hcommit
    simp [Standing.removals]
  | _ => first | exact fun id hid => .inl hid | simp [Standing.removals]

/-- What the history of a point says of those who have joined. -/
structure Tallied (history : List (Happening M E K)) (s : Standing M E K) : Prop where
  tidy : s.Tidy
  fresh : ∀ k, ¬s.Numbers k → joined k history = 0
  once : ∀ k, joined k history ≤ 1
  atMost : ∀ k, told k history + listed k s.pending ≤ joined k history
  exact : ∀ k, (∀ happening ∈ history, happening.loses k = false) →
    told k history + listed k s.pending = joined k history
  removals : ∀ id ∈ s.removals, .unregistered id ∈ history

theorem initial_tallied : Tallied ([] : List (Happening M E K)) .initial := by
  refine ⟨Standing.initial_tidy, ?_, ?_, ?_, ?_, ?_⟩ <;> simp [Standing.initial, Standing.removals]

theorem Tallied.change {history : List (Happening M E K)} (ht : Tallied history s) (hc : s.Coherent)
    (h : Change s happenings s') : Tallied (history ++ happenings) s' := by
  refine ⟨h.tidy hc ht.tidy, ?_, ?_, ?_, ?_, ?_⟩
  · intro k hk
    obtain ⟨hkeeps, hjoined | ⟨-, -, hgiven⟩⟩ := h.numbers k
    · have hbefore : ¬s.Numbers k := fun hs => hk (hkeeps hs)
      rw [joined_append, ht.fresh k hbefore, hjoined]
    · exact absurd hgiven hk
  · intro k
    have hbefore := ht.once k
    rw [joined_append]
    obtain ⟨-, hjoined | ⟨hjoined, hfree, -⟩⟩ := h.numbers k
    · omega
    · have hnone := ht.fresh k hfree
      omega
  · intro k
    obtain ⟨lost, hsum, -⟩ := h.tally hc ht.tidy k
    have hbefore := ht.atMost k
    rw [told_append, joined_append]
    omega
  · intro k hl
    obtain ⟨lost, hsum, hlost⟩ := h.tally hc ht.tidy k
    have hbefore := ht.exact k fun happening hh => hl happening (List.mem_append_left _ hh)
    have hnone : lost = 0 := by
      apply hlost
      · intro happening hh
        exact hl happening (List.mem_append_right _ hh)
      · intro id hid
        simpa [Happening.loses] using hl _ (List.mem_append_left _ (ht.removals id hid))
    rw [told_append, joined_append]
    omega
  · intro id hid
    rcases h.removals id hid with hold | hnew
    · exact List.mem_append_left _ (ht.removals id hold)
    · exact List.mem_append_right _ hnew

theorem Course.tallied {history : List (Happening M E K)} (h : Course .initial history s) :
    Tallied history s := by
  induction h with
  | refl => exact initial_tallied
  | step course hchange ih => exact ih.change (course.coherent Standing.initial_coherent) hchange

theorem Tallied.told_once {history : List (Happening M E K)} (ht : Tallied history s) (k : Key) :
    told k history ≤ 1 := by
  have htold := ht.atMost k
  have hjoined := ht.once k
  omega

end Exchange
