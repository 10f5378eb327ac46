import Exchange.Proofs.Tally

/-!
The final event of a point. Before the point ends, or its final pass begins, nobody is told; from
then on all who are told are told by one event, in the final pass or in the deliveries after the
end.
-/

namespace Exchange
set_option autoImplicit false

variable {M E K : Type} {s s' : Standing M E K} {history happenings : List (Happening M E K)}
variable {happening : Happening M E K} {event : Event M E} {occasion : Occasion} {k : Key}

namespace Happening

/-- The happening is part of the end. -/
def isFinal : Happening M E K → Bool
  | .begun event _ => event.isLast
  | .ended _ _ => true
  | .presented _ _ event occasion => occasion ≠ .call && event.isLast
  | .notified _ _ occasion => occasion ≠ .call
  | _ => false

/-- If the happening has to do with the end, it is by that event and on that occasion. -/
def Accords (event : Event M E) (occasion : Occasion) : Happening M E K → Prop
  | .begun e _ => e.isLast → e = event ∧ occasion = .pass
  | .presented _ _ e o => o ≠ .call → e.isLast → e = event ∧ o = occasion
  | _ => True

/-- An entry has its turn. -/
def turns (k : Key) : Happening M E K → Bool
  | .presented id _ _ occasion => occasion ≠ .call && Key.observer id = k
  | .notified n _ occasion => occasion ≠ .call && Key.ticket n = k
  | _ => false

/-- An entry joins the list, or will at the end of the pass. -/
def Brings (entry : Entry K) : Happening M E K → Prop
  | .registered id interest code => entry = .observer id interest code
  | .awaited n notice .taken | .awaited n notice .putOff => entry = .ending n notice
  | _ => False

theorem Brings.eq_registered {id : Nat} {interest : Interest} {code : K}
    (h : happening.Brings (.observer id interest code)) :
    happening = .registered id interest code := by
  cases happening with
  | registered =>
    cases h
    rfl
  | awaited _ _ reception => cases reception <;> cases h
  | _ => exact h.elim

theorem Brings.eq_awaited {n : Nat} {notice : Notice K} (h : happening.Brings (.ending n notice)) :
    happening = .awaited n notice .taken ∨ happening = .awaited n notice .putOff := by
  cases happening with
  | registered => cases h
  | awaited _ _ reception => cases reception <;> cases h <;> simp
  | _ => exact h.elim

theorem accords_of_not_isFinal (h : happening.isFinal = false) :
    happening.Accords event occasion := by
  cases happening <;> simp_all [isFinal, Accords]

theorem turns_of_tells (h : happening.tells k) : happening.turns k := by
  cases happening <;> simp_all [turns, tells]

end Happening

/-! ## Nobody is told twice -/

theorem Change.eq_given (h : Change s happenings s') (hm : happening ∈ happenings)
    (ht : happening.turns k) :
    ∃ entry event, s.phase.due = some (entry, event) ∧ s.service = .calling ∧
      happenings = [entry.given event s.phase.occasion] := by
  have never (h : ∀ other ∈ happenings, other.turns k = false) : False := by
    simp [h happening hm] at ht
  cases h with
  | gives hdue => exact ⟨_, _, hdue, rfl, rfl⟩
  | aside ha =>
    apply (never _).elim
    intro other hother
    rw [List.mem_singleton.mp hother]
    rcases ha.eq with ⟨_, _, rfl⟩ | ⟨_, _, rfl⟩ | ⟨_, _, _, rfl⟩ | ⟨_, _, rfl⟩ <;> rfl
  | _ =>
    apply (never _).elim
    simp [Happening.turns]

/-- Where a point stands when somebody has a turn. -/
theorem Course.at_turn {start : Standing M E K} (h : Course start history s)
    {early late : List (Happening M E K)} (heq : history = early ++ happening :: late)
    (ht : happening.turns k) :
    ∃ now entry event, Course start early now ∧ now.phase.due = some (entry, event) ∧
      now.service = .calling ∧ happening = entry.given event now.phase.occasion := by
  obtain ⟨before, now, first, last, now', after, course, hchange, -, rfl, -⟩ := h.split heq
  obtain ⟨entry, event, hdue, hcalling, hone⟩ :=
    hchange.eq_given (List.mem_append_right _ List.mem_cons_self) ht
  obtain ⟨rfl, hgiven⟩ : first = [] ∧ happening = entry.given event now.phase.occasion := by
    cases first <;> simp_all
  exact ⟨now, entry, event, (List.append_nil before).symm ▸ course, hdue, hcalling, hgiven⟩

/-- An entry has its turn while it is still to be told, if it has not been. -/
theorem Change.pending_of_turns (h : Change s happenings s') (hm : happening ∈ happenings)
    (ht : happening.turns k) :
    happenings = [happening] ∧ 0 < listed k s.pending := by
  obtain ⟨entry, event, hdue, hcalling, rfl⟩ := h.eq_given hm ht
  obtain rfl := List.mem_singleton.mp hm
  refine ⟨rfl, ?_⟩
  have hentry : entry.goesBy k := by
    cases entry <;> simp_all [Entry.given, Happening.turns, Entry.goesBy]
  obtain ⟨phase, v, i, n⟩ := s
  cases hcalling
  cases phase with
  | listening => cases hdue
  | dispatching owner pass =>
    obtain ⟨rest, hwaiting, -, -⟩ := Phase.advance_dispatching true hdue
    simp only [Standing.pending_dispatching, hwaiting]
    split <;> simp only [listed_append, listed_cons, hentry, if_true, reduceCtorEq, if_false] <;>
      omega
  | ended farewell =>
    obtain ⟨rest, hwaiting, -, -⟩ := Phase.advance_ended true hdue
    simp [hwaiting, hentry]

/-- Nobody has a turn after having been told. -/
theorem Course.told_last (h : Course .initial history s) (k : Key) :
    history.Pairwise fun earlier later => earlier.tells k → ¬later.turns k := by
  induction h with
  | refl => exact .nil
  | @step before now s s' course hchange ih =>
    have ht := course.tallied
    apply List.pairwise_append.mpr
    refine ⟨ih, ?_, ?_⟩
    · apply List.pairwise_iff_forall_sublist.mpr
      intro earlier later hsub htells hturns
      obtain ⟨hone, -⟩ := hchange.pending_of_turns (hsub.subset (by simp)) hturns
      rw [hone] at hsub
      simpa using hsub.length_le
    · intro earlier he later hl htells hturns
      obtain ⟨-, hpending⟩ := hchange.pending_of_turns hl hturns
      have htold : 0 < told k before := List.countP_pos_iff.mpr ⟨earlier, he, htells⟩
      have hmost := ht.atMost k
      have honce := ht.once k
      omega

/-! ## Who is on the list has joined it -/

namespace Standing

def entries (s : Standing M E K) : List (Entry K) :=
  match s.phase with
  | .listening entries => entries
  | .dispatching _ pass => pass.waiting ++ pass.kept ++ pass.newcomers
  | .ended farewell => farewell.waiting

end Standing

theorem Pass.mem_survivors {pass : Pass M E K} {entry : Entry K} (h : entry ∈ pass.survivors) :
    entry ∈ pass.kept ∨ entry ∈ pass.newcomers := by
  rcases List.mem_append.mp h with h | h
  · exact .inl (List.mem_filter.mp h).1
  · exact .inr h

theorem Change.entries (h : Change s happenings s') :
    ∀ entry ∈ s'.entries,
      entry ∈ s.entries ∨ ∃ happening ∈ happenings, happening.Brings entry := by
  intro entry hentry
  cases h with
  | registers => simp_all [Standing.entries, Happening.Brings]
  | awaits => simp_all [Standing.entries, Happening.Brings]
  | awaitsInside =>
    simp only [Standing.entries, Pass.newcomers_postponed, Postponed.joined?, Option.toList_some,
      List.mem_append, List.mem_singleton] at hentry ⊢
    rcases hentry with hentry | hentry | rfl
    · exact .inl (.inl hentry)
    · exact .inl (.inr hentry)
    · exact .inr ⟨_, rfl, rfl⟩
  | unregisters id => exact .inl (List.mem_filter.mp hentry).1
  | unregistersLast id => exact .inl (List.mem_filter.mp hentry).1
  | pushes => simp_all [Standing.entries]
  | unregistersInside => simp_all [Standing.entries, Postponed.joined?]
  | pushesInside => simp_all [Standing.entries, Postponed.joined?]
  | @skips phase _ _ _ _ hdue =>
    left
    cases phase with
    | listening => cases hdue
    | dispatching owner pass =>
      obtain ⟨rest, hwaiting, -, hadvance⟩ := Phase.advance_dispatching true hdue
      simp only [Standing.entries, hadvance, hwaiting, Pass.newcomers, if_true] at hentry ⊢
      grind
    | ended farewell =>
      obtain ⟨rest, hwaiting, -, hadvance⟩ := Phase.advance_ended true hdue
      simp_all [Standing.entries]
  | @leaves phase _ _ _ _ stays hdue =>
    left
    cases phase with
    | listening => cases hdue
    | dispatching owner pass =>
      obtain ⟨rest, hwaiting, -, hadvance⟩ := Phase.advance_dispatching stays hdue
      simp only [Standing.entries, hadvance, hwaiting, Pass.newcomers] at hentry ⊢
      grind
    | ended farewell =>
      obtain ⟨rest, hwaiting, -, hadvance⟩ := Phase.advance_ended stays hdue
      simp_all [Standing.entries]
  | reopens hwaiting hcommit =>
    obtain ⟨-, -, -, rfl⟩ := Pass.commit_listening hcommit
    left
    simpa [Standing.entries, hwaiting] using Pass.mem_survivors hentry
  | goesOn hwaiting hcommit =>
    obtain ⟨-, -, rfl, event, later, -, rfl⟩ := Pass.commit_dispatching hcommit
    left
    simp only [Standing.entries, Pass.newcomers_opened, List.append_nil] at hentry
    simpa [Standing.entries, hwaiting] using Pass.mem_survivors hentry
  | ends hwaiting hcommit =>
    left
    rcases Pass.commit_ended hcommit with ⟨-, rfl⟩ | ⟨-, -, rfl⟩
    · simpa [Standing.entries, hwaiting] using Pass.mem_survivors (List.mem_filter.mp hentry).1
    · simpa [Standing.entries, hwaiting] using Pass.mem_survivors hentry
  | drops => simp_all [Standing.entries]
  | _ => exact .inl hentry

theorem Course.entries_brought (h : Course .initial history s) :
    ∀ entry ∈ s.entries, ∃ happening ∈ history, happening.Brings entry := by
  induction h with
  | refl => simp [Standing.initial, Standing.entries]
  | step course hchange ih =>
    intro entry hentry
    rcases hchange.entries entry hentry with hold | ⟨happening, hmem, hbrings⟩
    · obtain ⟨happening, hmem, hbrings⟩ := ih entry hold
      exact ⟨happening, List.mem_append_left _ hmem, hbrings⟩
    · exact ⟨happening, List.mem_append_right _ hmem, hbrings⟩

theorem Standing.mem_entries_of_due {entry : Entry K} (hdue : s.phase.due = some (entry, event)) :
    entry ∈ s.entries := by
  obtain ⟨phase, v, i, n⟩ := s
  cases phase with
  | listening => cases hdue
  | dispatching owner pass =>
    obtain ⟨rest, hwaiting, -, -⟩ := Phase.advance_dispatching true hdue
    simp [Standing.entries, hwaiting]
  | ended farewell =>
    obtain ⟨rest, hwaiting, -, -⟩ := Phase.advance_ended true hdue
    simp [Standing.entries, hwaiting]

/-- Whoever has a turn has joined the list before. -/
theorem Course.brought_of_turns (h : Course .initial history s) (hm : happening ∈ history)
    (ht : happening.turns k) :
    ∃ entry event occasion, happening = entry.given event occasion ∧
      ∃ other ∈ history, other.Brings entry := by
  induction h with
  | refl => cases hm
  | step course hchange ih =>
    rcases List.mem_append.mp hm with hm | hm
    · obtain ⟨entry, event, occasion, heq, other, hother, hbrings⟩ := ih hm
      exact ⟨entry, event, occasion, heq, other, List.mem_append_left _ hother, hbrings⟩
    · obtain ⟨entry, event, hdue, -, rfl⟩ := hchange.eq_given hm ht
      obtain ⟨other, hother, hbrings⟩ :=
        course.entries_brought entry (Standing.mem_entries_of_due hdue)
      exact ⟨entry, event, _, List.mem_singleton.mp hm, other, List.mem_append_left _ hother,
        hbrings⟩

theorem Tallied.eq_of_joins (h : Tallied history s) {first second : Happening M E K}
    (hf : first ∈ history) (hs : second ∈ history) (hfk : first.joins k) (hsk : second.joins k) :
    first = second := by
  have hfirst := filter_eq_singleton (h.once k) hf hfk
  rw [filter_eq_singleton (h.once k) hs hsk] at hfirst
  exact (List.singleton_inj.mp hfirst).symm

/-! ## The final event -/

/-- The end has not begun. -/
def Unfinished (history : List (Happening M E K)) : Prop :=
  ∀ happening ∈ history, happening.isFinal = false

/-- All that has to do with the end is by that event and on that occasion. -/
def FinishedBy (event : Event M E) (occasion : Occasion) (history : List (Happening M E K)) :
    Prop :=
  ∀ happening ∈ history, happening.Accords event occasion

/-- How the history of a point and its phase agree on the end. -/
def Finale (history : List (Happening M E K)) : Phase M E K → Prop
  | .listening _ => Unfinished history
  | .dispatching _ pass =>
    if pass.event.isLast then
      FinishedBy pass.event .pass history ∧ ∃ entries, .begun pass.event entries ∈ history
    else Unfinished history
  | .ended farewell =>
    (FinishedBy farewell.event .pass history ∧
      (∃ entries, .begun farewell.event entries ∈ history) ∧
      ∀ entry ∈ farewell.waiting, entry.isEnding) ∨
    (FinishedBy farewell.event .farewell history ∧ farewell.event = .tombstone)

theorem Unfinished.finishedBy (h : Unfinished history) : FinishedBy event occasion history := by
  intro happening hh
  exact Happening.accords_of_not_isFinal (h happening hh)

theorem unfinished_append :
    Unfinished (history ++ happenings) ↔ Unfinished history ∧ Unfinished happenings := by
  simp [Unfinished, or_imp, forall_and]

theorem finishedBy_append : FinishedBy event occasion (history ++ happenings) ↔
    FinishedBy event occasion history ∧ FinishedBy event occasion happenings := by
  simp [FinishedBy, or_imp, forall_and]

/-- What has to do with the end in no way changes nothing. -/
theorem Finale.append {phase : Phase M E K} (h : Finale history phase)
    (hh : Unfinished happenings) : Finale (history ++ happenings) phase := by
  cases phase with
  | listening => exact unfinished_append.mpr ⟨h, hh⟩
  | dispatching owner pass =>
    simp only [Finale] at h ⊢
    split
    · rename_i hfinal
      rw [if_pos hfinal] at h
      obtain ⟨hby, entries, hbegun⟩ := h
      exact ⟨finishedBy_append.mpr ⟨hby, hh.finishedBy⟩, entries, List.mem_append_left _ hbegun⟩
    · rename_i hfinal
      rw [if_neg hfinal] at h
      exact unfinished_append.mpr ⟨h, hh⟩
  | ended farewell =>
    rcases h with ⟨hby, ⟨entries, hbegun⟩, hendings⟩ | ⟨hby, htomb⟩
    · exact .inl ⟨finishedBy_append.mpr ⟨hby, hh.finishedBy⟩,
        ⟨entries, List.mem_append_left _ hbegun⟩, hendings⟩
    · exact .inr ⟨finishedBy_append.mpr ⟨hby, hh.finishedBy⟩, htomb⟩

theorem Finale.begun (h : Unfinished history) (owner : Nat) (pass : Pass M E K) :
    Finale (history ++ [.begun pass.event pass.waiting]) (.dispatching owner pass) := by
  simp only [Finale]
  split
  · refine ⟨finishedBy_append.mpr ⟨h.finishedBy, ?_⟩, pass.waiting, by simp⟩
    simp [FinishedBy, Happening.Accords]
  · rename_i hfinal
    refine unfinished_append.mpr ⟨h, ?_⟩
    simpa [Unfinished, Happening.isFinal] using hfinal

theorem Finale.unfinished {owner : Nat} {pass : Pass M E K}
    (h : Finale history (.dispatching owner pass)) (hfinal : ¬pass.event.isLast) :
    Unfinished history := by
  simpa only [Finale, if_neg hfinal] using h

theorem Finale.final {owner : Nat} {pass : Pass M E K}
    (h : Finale history (.dispatching owner pass)) (hfinal : pass.event.isLast) :
    FinishedBy pass.event .pass history ∧ ∃ entries, .begun pass.event entries ∈ history := by
  simpa only [Finale, hfinal, if_true] using h

theorem Finale.advance {phase : Phase M E K} (h : Finale history phase) (stays : Bool) :
    Finale history (phase.advance stays) := by
  cases phase with
  | listening => exact h
  | dispatching owner pass =>
    obtain ⟨event, waiting, kept, postponed, queue⟩ := pass
    cases waiting <;> exact h
  | ended farewell =>
    obtain ⟨event, waiting, late⟩ := farewell
    rcases h with ⟨hby, hbegun, hendings⟩ | h
    · refine .inl ⟨hby, hbegun, ?_⟩
      intro entry hentry
      exact hendings entry (List.mem_of_mem_tail hentry)
    · exact .inr h

theorem Change.finale (h : Change s happenings s') (hc : s.Coherent)
    (hf : Finale history s.phase) : Finale (history ++ happenings) s'.phase := by
  cases h with
  | rests => simpa using hf
  | aside ha =>
    refine hf.append ?_
    intro other hother
    rw [List.mem_singleton.mp hother]
    rcases ha.eq with ⟨_, _, rfl⟩ | ⟨_, _, rfl⟩ | ⟨_, _, _, rfl⟩ | ⟨_, _, rfl⟩ <;> rfl
  | registers => exact hf.append (by simp [Unfinished, Happening.isFinal])
  | awaits => exact hf.append (by simp [Unfinished, Happening.isFinal])
  | awaitsNothing => exact hf.append (by simp [Unfinished, Happening.isFinal])
  | unregisters => exact hf.append (by simp [Unfinished, Happening.isFinal])
  | unregistersLast =>
    have hf : Unfinished history := hf
    refine .inr ⟨finishedBy_append.mpr ⟨hf.finishedBy, ?_⟩, rfl⟩
    simp [FinishedBy, Happening.Accords]
  | @pushes entries i n t event =>
    have hpushed : Unfinished (history ++ [.pushed event .taken]) :=
      unfinished_append.mpr ⟨hf, by simp [Unfinished, Happening.isFinal]⟩
    simpa using Finale.begun hpushed t { event, waiting := entries }
  | awaitsInside => exact hf.append (by simp [Unfinished, Happening.isFinal])
  | unregistersInside => exact hf.append (by simp [Unfinished, Happening.isFinal])
  | pushesInside => exact hf.append (by simp [Unfinished, Happening.isFinal])
  | awaitsLate => exact hf.append (by simp [Unfinished, Happening.isFinal])
  | unregistersLate => exact hf.append (by simp [Unfinished, Happening.isFinal])
  | pushesLate => exact hf.append (by simp [Unfinished, Happening.isFinal])
  | calls => simpa using hf
  | skips => simpa using hf.advance true
  | @gives phase i n entry event hdue =>
    have heeds := hc.heeds (.inl rfl) hdue
    cases phase with
    | listening => cases hdue
    | dispatching owner pass =>
      obtain ⟨rest, -, rfl, -⟩ := Phase.advance_dispatching true hdue
      by_cases hfinal : pass.event.isLast
      · obtain ⟨hby, entries, hbegun⟩ := hf.final hfinal
        simp only [Finale, if_pos hfinal]
        refine ⟨finishedBy_append.mpr ⟨hby, ?_⟩, entries, List.mem_append_left _ hbegun⟩
        cases entry <;> simp [FinishedBy, Entry.given, Happening.Accords, Phase.occasion]
      · refine hf.append ?_
        cases entry <;> simp_all [Unfinished, Entry.given, Happening.isFinal, Entry.heeds]
    | ended farewell =>
      obtain ⟨rest, hwaiting, rfl, -⟩ := Phase.advance_ended true hdue
      rcases hf with ⟨hby, ⟨entries, hbegun⟩, hendings⟩ | ⟨hby, htomb⟩
      · have hgiven : FinishedBy farewell.event .pass
            [entry.given farewell.event (Phase.ended farewell).occasion] := by
          have hending := hendings entry (by simp [hwaiting])
          cases entry <;> simp_all [FinishedBy, Entry.given, Happening.Accords, Entry.isEnding]
        exact .inl ⟨finishedBy_append.mpr ⟨hby, hgiven⟩,
          ⟨entries, List.mem_append_left _ hbegun⟩, hendings⟩
      · refine .inr ⟨finishedBy_append.mpr ⟨hby, ?_⟩, htomb⟩
        cases entry <;> simp [FinishedBy, Entry.given, Happening.Accords, Phase.occasion]
  | leaves stays => exact (hf.advance stays).append (by simp [Unfinished, Happening.isFinal])
  | reopens _ hcommit =>
    obtain ⟨hfinal, -, -, rfl⟩ := Pass.commit_listening hcommit
    rw [List.append_nil]
    exact hf.unfinished hfinal
  | goesOn _ hcommit =>
    obtain ⟨hfinal, -, rfl, event, later, -, rfl⟩ := Pass.commit_dispatching hcommit
    exact Finale.begun (hf.unfinished hfinal) _ _
  | ends _ hcommit =>
    rcases Pass.commit_ended hcommit with ⟨hfinal, rfl⟩ | ⟨hfinal, -, rfl⟩
    · obtain ⟨hby, entries, hbegun⟩ := hf.final hfinal
      refine .inl ⟨finishedBy_append.mpr ⟨hby, ?_⟩, ⟨entries, List.mem_append_left _ hbegun⟩, ?_⟩
      · simp [FinishedBy, Happening.Accords]
      · intro entry hentry
        exact (List.mem_filter.mp hentry).2
    · refine .inr ⟨finishedBy_append.mpr ⟨(hf.unfinished hfinal).finishedBy, ?_⟩, rfl⟩
      simp [FinishedBy, Happening.Accords]
  | drops => exact hf.append (by simp [Unfinished, Happening.isFinal])
  | retires => simpa using hf

theorem Course.finale (h : Course .initial history s) : Finale history s.phase := by
  induction h with
  | refl => simp [Standing.initial, Finale, Unfinished]
  | step course hchange ih => exact hchange.finale (course.coherent Standing.initial_coherent) ih

/-- After the end, once nobody serves the point any more, there is nobody still to be told. -/
theorem Course.pending_eq_nil (h : Course .initial history s) (hended : s.phase.isEnded)
    (hidle : s.service = .idle) : s.pending = [] := by
  have hc := h.coherent Standing.initial_coherent
  obtain ⟨phase, v, i, n⟩ := s
  cases phase <;> cases hended
  rename_i farewell
  have hwaiting := (hc.ended farewell rfl hidle).1
  simp only at hidle
  simp [hidle, hwaiting]

/-- Whoever has joined and has not been lost has been told once the end is over. -/
theorem Course.told_of_joins (h : Course .initial history s) (hended : s.phase.isEnded)
    (hidle : s.service = .idle) (hmem : happening ∈ history) (hjoins : happening.joins k)
    (hstays : ∀ happening ∈ history, happening.loses k = false) :
    ∃ entry event occasion, entry.given event occasion ∈ history ∧
      (entry.given event occasion).tells k ∧ ∃ other ∈ history, other.Brings entry := by
  have ht := h.tallied
  have htold : 0 < told k history := by
    have hexact := ht.exact k hstays
    have hjoined : 0 < joined k history := List.countP_pos_iff.mpr ⟨happening, hmem, hjoins⟩
    rw [h.pending_eq_nil hended hidle, listed_nil] at hexact
    omega
  obtain ⟨told, hmem, htells⟩ := List.countP_pos_iff.mp htold
  obtain ⟨entry, event, occasion, rfl, hbrought⟩ :=
    h.brought_of_turns hmem (Happening.turns_of_tells htells)
  exact ⟨entry, event, occasion, hmem, htells, hbrought⟩

end Exchange
