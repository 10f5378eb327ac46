import Exchange.Proofs.Queue

/-!
The passes of a point against the plain fan-out: each entry on the list is run once for each event
that it heeds. The list of a pass is what the pass before it leaves, with those who have come and
without those who have gone since.
-/

namespace Exchange
set_option autoImplicit false

variable {M E K : Type} {s s' start : Standing M E K} {happenings history : List (Happening M E K)}
variable {event : Event M E} {entries : List (Entry K)}

namespace Happening

/-- A pass begins, with that event and that list. -/
@[simp] def round? : Happening M E K → Option (Event M E × List (Entry K))
  | .begun event entries => some (event, entries)
  | _ => none

@[simp] def inPass : Happening M E K → Bool
  | .presented _ _ _ occasion | .notified _ _ occasion => occasion = .pass
  | _ => false

/-- What a call makes of the list of an open point. -/
def enlist (entries : List (Entry K)) : Happening M E K → List (Entry K)
  | .registered id interest code => entries ++ [.observer id interest code]
  | .awaited ticket notice .taken => entries ++ [.ending ticket notice]
  | .unregistered id => without id entries
  | _ => entries

def leaves? : Happening M E K → Option Nat
  | .left (.observer id _ _) false => some id
  | _ => none

def unregisters? : Happening M E K → Option Nat
  | .unregistered id => some id
  | _ => none

/-- A notice is handed over inside a pass. -/
def putsOff? : Happening M E K → Option (Entry K)
  | .awaited ticket notice .putOff => some (.ending ticket notice)
  | _ => none

end Happening

/-- The passes of a point. -/
def rounds (history : List (Happening M E K)) : List (Event M E × List (Entry K)) :=
  history.filterMap Happening.round?

def passCalls (history : List (Happening M E K)) : List (Happening M E K) :=
  history.filter Happening.inPass

/-- One pass of the plain fan-out. -/
def fanOut (round : Event M E × List (Entry K)) : List (Happening M E K) :=
  (round.2.filter (Entry.heeds round.1)).map (Entry.given round.1 .pass)

/-- Those who have come to an open point and not been unregistered since. -/
def enlisted (history : List (Happening M E K)) : List (Entry K) :=
  history.foldl Happening.enlist []

def leavers (history : List (Happening M E K)) : List Nat := history.filterMap Happening.leaves?

def unregistered (history : List (Happening M E K)) : List Nat :=
  history.filterMap Happening.unregisters?

/-- The notices handed over inside a pass. -/
def putOff (history : List (Happening M E K)) : List (Entry K) :=
  history.filterMap Happening.putsOff?

/-- What becomes of a list. -/
def succeeding (entries : List (Entry K)) (history : List (Happening M E K)) : List (Entry K) :=
  entries.filter (fun entry => !entry.isAmong (leavers history ++ unregistered history)) ++
    putOff history ++ enlisted history

/-! ## Beginnings of passes -/

/-- A pass begins with a push on an open point, or after a pass whose event was not final. -/
theorem Change.eq_begun (h : Change s happenings s') (hm : .begun event entries ∈ happenings) :
    (s.phase = .listening entries ∧ happenings = [.pushed event .taken, .begun event entries] ∨
      ∃ owner pass, s.phase = .dispatching owner pass ∧ pass.waiting = [] ∧ ¬pass.event.isLast ∧
        entries = pass.survivors ∧ happenings = [.begun event entries]) ∧
    s'.service = .between ∧
    ∃ owner queue, s'.phase = .dispatching owner { event, waiting := entries, queue } := by
  cases h with
  | pushes =>
    obtain ⟨rfl, rfl⟩ : _ = event ∧ _ = entries := by simpa [eq_comm] using hm
    exact ⟨.inl ⟨rfl, rfl⟩, rfl, _, _, rfl⟩
  | goesOn hwaiting hcommit =>
    obtain ⟨hfinal, -, -, event', later, -, rfl⟩ := Pass.commit_dispatching hcommit
    obtain ⟨rfl, rfl⟩ : event = event' ∧ entries = _ := by simpa using hm
    exact ⟨.inr ⟨_, _, rfl, hwaiting, hfinal, rfl, rfl⟩, rfl, _, _, rfl⟩
  | aside ha =>
    rcases ha.eq with ⟨_, _, rfl⟩ | ⟨_, _, rfl⟩ | ⟨_, _, _, rfl⟩ | ⟨_, _, rfl⟩ <;> simp at hm
  | @gives _ _ _ entry => cases entry <;> simp [Entry.given] at hm
  | _ => simp at hm

/-! ## The callbacks of a pass -/

/-- What the pass that is open has still to do. -/
def Standing.remainder (s : Standing M E K) : List (Happening M E K) :=
  match s.phase with
  | .dispatching _ pass => fanOut (pass.event, s.untold pass.waiting)
  | _ => []

@[simp] theorem fanOut_nil (event : Event M E) : fanOut (event, ([] : List (Entry K))) = [] := rfl

theorem fanOut_cons (event : Event M E) (entry : Entry K) (entries : List (Entry K)) :
    fanOut (event, entry :: entries) =
      (if entry.heeds event then [entry.given event .pass] else []) ++ fanOut (event, entries) := by
  simp only [fanOut, List.filter_cons]
  split <;> rfl

/-- A pass runs the callbacks of the plain fan-out one by one. -/
theorem Change.passCalls_eq (h : Change s happenings s') (hc : s.Coherent) :
    passCalls happenings ++ s'.remainder = s.remainder ++ (rounds happenings).flatMap fanOut := by
  cases h with
  | rests => simp [passCalls, rounds]
  | aside ha =>
    rcases ha.eq with ⟨_, _, rfl⟩ | ⟨_, _, rfl⟩ | ⟨_, _, _, rfl⟩ | ⟨_, _, rfl⟩ <;>
      simp [passCalls, rounds]
  | pushes => simp [passCalls, rounds, List.filterMap_cons, Standing.remainder, Standing.untold]
  | awaitsInside => simp [passCalls, rounds, Standing.remainder, Standing.untold]
  | unregistersInside => simp [passCalls, rounds, Standing.remainder, Standing.untold]
  | pushesInside => simp [passCalls, rounds, Standing.remainder, Standing.untold]
  | @calls phase => cases phase <;> simp [passCalls, rounds, Standing.remainder, Standing.untold]
  | @skips phase _ _ entry event hdue heeds =>
    cases phase with
    | listening => cases hdue
    | dispatching owner pass =>
      obtain ⟨rest, hwaiting, rfl, hadvance⟩ := Phase.advance_dispatching true hdue
      simp [hadvance, passCalls, rounds, Standing.remainder, Standing.untold, hwaiting, fanOut_cons,
        heeds]
    | ended farewell => simp [Phase.advance, passCalls, rounds, Standing.remainder]
  | @gives phase _ _ entry event hdue =>
    have heeds := hc.heeds (.inl rfl) hdue
    cases phase with
    | listening => cases hdue
    | dispatching owner pass =>
      obtain ⟨rest, hwaiting, rfl, -⟩ := Phase.advance_dispatching true hdue
      cases entry <;>
        simp_all [passCalls, rounds, Standing.remainder, Standing.untold, fanOut_cons, Entry.given,
          Happening.inPass, Happening.round?, Phase.occasion]
    | ended farewell =>
      cases entry <;> simp [passCalls, rounds, Standing.remainder, Entry.given, Phase.occasion]
  | @leaves phase _ _ entry event stays hdue =>
    cases phase with
    | listening => cases hdue
    | dispatching owner pass =>
      obtain ⟨rest, hwaiting, rfl, hadvance⟩ := Phase.advance_dispatching stays hdue
      simp [hadvance, passCalls, rounds, Standing.remainder, Standing.untold, hwaiting]
    | ended farewell => simp [Phase.advance, passCalls, rounds, Standing.remainder]
  | reopens hwaiting => simp [passCalls, rounds, Standing.remainder, Standing.untold, hwaiting]
  | goesOn hwaiting =>
    simp [passCalls, rounds, Standing.remainder, Standing.untold, hwaiting]
  | ends hwaiting => simp [passCalls, rounds, Standing.remainder, Standing.untold, hwaiting]
  | _ => simp [passCalls, rounds, Standing.remainder]

/-- The callbacks run in passes are those of the plain fan-out, as far as the pass that is open has
come. -/
theorem Course.passCalls_eq (h : Course .initial history s) :
    passCalls history ++ s.remainder = (rounds history).flatMap fanOut := by
  induction h with
  | refl => rfl
  | @step history happenings s s' course hchange ih =>
    have hone := hchange.passCalls_eq (course.coherent Standing.initial_coherent)
    simp only [passCalls, rounds, List.filter_append, List.filterMap_append,
      List.flatMap_append] at ih hone ⊢
    rw [List.append_assoc, hone, ← List.append_assoc, ih]

/-! ## From one list to the next -/

section
variable (early late : List (Happening M E K))

@[simp] theorem rounds_append : rounds (early ++ late) = rounds early ++ rounds late :=
  List.filterMap_append

theorem leavers_append : leavers (early ++ late) = leavers early ++ leavers late :=
  List.filterMap_append

theorem unregistered_append :
    unregistered (early ++ late) = unregistered early ++ unregistered late :=
  List.filterMap_append

theorem putOff_append : putOff (early ++ late) = putOff early ++ putOff late :=
  List.filterMap_append

theorem enlisted_append : enlisted (early ++ late) = late.foldl Happening.enlist (enlisted early) :=
  List.foldl_append

end

@[simp] theorem Entry.isAmong_append (entry : Entry K) (first second : List Nat) :
    entry.isAmong (first ++ second) = (entry.isAmong first || entry.isAmong second) := by
  cases entry <;> simp [Entry.isAmong]

/-- How far the pass has come that began with that list: who had a turn stays or has left. -/
structure Midway (event : Event M E) (entries : List (Entry K)) (history : List (Happening M E K))
    (pass : Pass M E K) : Prop where
  event : pass.event = event
  turned : ∃ turned, entries = turned ++ pass.waiting ∧
    pass.kept = turned.filter (fun entry => !entry.isAmong (leavers history)) ∧
    ∀ id ∈ leavers history, 0 < listed (.observer id) turned
  removals : pass.removals = unregistered history
  newcomers : pass.newcomers = putOff history
  enlisted : enlisted history = []

namespace Midway
variable {pass pass' : Pass M E K}

theorem survivors (h : Midway event entries history pass) (hwaiting : pass.waiting = []) :
    pass.survivors = succeeding entries history := by
  obtain ⟨-, ⟨turned, hturned, hkept, -⟩, hremovals, hnewcomers, henlisted⟩ := h
  rw [hwaiting, List.append_nil] at hturned
  rw [Pass.survivors, succeeding, hremovals, hnewcomers, henlisted, hkept, hturned,
    List.filter_filter, List.append_nil]
  congr 1
  apply List.filter_congr
  intro entry _
  rw [Entry.isAmong_append, Bool.not_or, Bool.and_comm]

theorem calls (h : Midway event entries history pass) (hevent : pass'.event = pass.event)
    (hwaiting : pass'.waiting = pass.waiting) (hkept : pass'.kept = pass.kept)
    (hleavers : leavers happenings = [])
    (hremovals : pass'.removals = pass.removals ++ unregistered happenings)
    (hnewcomers : pass'.newcomers = pass.newcomers ++ putOff happenings)
    (henlisted : happenings.foldl Happening.enlist [] = []) :
    Midway event entries (history ++ happenings) pass' := by
  refine ⟨hevent.trans h.event, ?_, ?_, ?_, ?_⟩
  · rw [leavers_append, hleavers, List.append_nil, hwaiting, hkept]
    exact h.turned
  · rw [hremovals, h.removals, unregistered_append]
  · rw [hnewcomers, h.newcomers, putOff_append]
  · rw [enlisted_append, h.enlisted, henlisted]

theorem turn {entry : Entry K} {rest : List (Entry K)} {stays : Bool}
    (h : Midway event entries history pass)
    (hlisted : ∀ k, listed k entries ≤ 1) (hwaiting : pass.waiting = entry :: rest)
    (hstays : stays = false → ¬entry.isEnding)
    (hleavers : leavers happenings = if stays then [] else entry.id?.toList)
    (hunregistered : unregistered happenings = []) (hputOff : putOff happenings = [])
    (henlisted : happenings.foldl Happening.enlist [] = []) :
    Midway event entries (history ++ happenings)
      { pass with waiting := rest, kept := if stays then pass.kept ++ [entry] else pass.kept } := by
  obtain ⟨hevent, ⟨turned, hturned, hkept, hgone⟩, hremovals, hnewcomers, hnone⟩ := h
  rw [hwaiting] at hturned
  -- nobody who had a turn goes by the key of the entry
  have hother (k : Key) (hk : entry.goesBy k) : listed k turned = 0 := by
    have honce := hlisted k
    rw [hturned, listed_append, listed_cons, if_pos hk] at honce
    omega
  refine ⟨hevent, ⟨turned ++ [entry], by simp [hturned], ?_, ?_⟩, ?_, ?_, ?_⟩
  · rw [leavers_append, hleavers, List.filter_append]
    cases entry with
    | ending ticket notice =>
      cases stays with
      | true => simp [hkept, Entry.isAmong]
      | false => exact absurd rfl (hstays rfl)
    | observer id interest code =>
      have hnone := hother (.observer id) (by simp [Entry.goesBy])
      cases stays with
      | true =>
        have hstayed : id ∉ leavers history := by
          intro hid
          have hthere := hgone id hid
          omega
        simp [hkept, Entry.isAmong, hstayed]
      | false =>
        have hturned (other : Entry K) (h : other ∈ turned) : other.isAmong [id] = false := by
          have hnot := List.countP_eq_zero.mp hnone other h
          cases other <;> simp_all [Entry.goesBy, Entry.isAmong]
        have hleft : ([.observer id interest code] : List (Entry K)).filter
            (fun other => !other.isAmong (leavers history ++ [id])) = [] := by simp [Entry.isAmong]
        simp only [Bool.false_eq_true, if_false, Entry.id?, Option.toList_some, hleft,
          List.append_nil, hkept]
        apply List.filter_congr
        intro other h
        rw [Entry.isAmong_append, hturned other h, Bool.or_false]
  · intro id hid
    rw [leavers_append, hleavers] at hid
    rw [listed_append]
    rcases List.mem_append.mp hid with hid | hid
    · have hthere := hgone id hid
      omega
    · cases stays <;> cases entry <;> simp_all [Entry.id?, Entry.goesBy]
  · rw [unregistered_append, hunregistered, List.append_nil]
    exact hremovals
  · rw [putOff_append, hputOff, List.append_nil]
    exact hnewcomers
  · rw [enlisted_append, hnone, henlisted]

end Midway

/-- What has become of the list with which a pass began. -/
def Aftermath (event : Event M E) (entries : List (Entry K)) (history : List (Happening M E K)) :
    Phase M E K → Prop
  | .listening now => now = succeeding entries history
  | .dispatching _ pass => Midway event entries history pass
  | .ended _ => True

/-- What happens has no bearing on lists. -/
structure Indifferent (happenings : List (Happening M E K)) : Prop where
  leavers : leavers happenings = []
  unregistered : unregistered happenings = []
  putOff : putOff happenings = []
  enlist : ∀ entries, happenings.foldl Happening.enlist entries = entries

theorem succeeding_indifferent (h : Indifferent happenings) :
    succeeding entries (history ++ happenings) = succeeding entries history := by
  rw [succeeding, leavers_append, unregistered_append, putOff_append, enlisted_append, h.leavers,
    h.unregistered, h.putOff, h.enlist, List.append_nil, List.append_nil, List.append_nil,
    succeeding]

theorem Aftermath.indifferent {phase : Phase M E K} (ha : Aftermath event entries history phase)
    (h : Indifferent happenings) : Aftermath event entries (history ++ happenings) phase := by
  cases phase with
  | listening now => exact ha.trans (succeeding_indifferent h).symm
  | dispatching owner pass =>
    exact ha.calls rfl rfl rfl h.leavers (by simp [h.unregistered]) (by simp [h.putOff])
      (h.enlist [])
  | ended => trivial

theorem succeeding_join {happening : Happening M E K} {entry : Entry K}
    (hleavers : leavers [happening] = []) (hunregistered : unregistered [happening] = [])
    (hputOff : putOff [happening] = [])
    (hjoins : ∀ entries, happening.enlist entries = entries ++ [entry]) :
    succeeding entries (history ++ [happening]) = succeeding entries history ++ [entry] := by
  rw [succeeding, leavers_append, unregistered_append, putOff_append, enlisted_append, hleavers,
    hunregistered, hputOff, List.foldl_cons, List.foldl_nil, hjoins]
  simp [succeeding]

theorem without_putOff (id : Nat) (history : List (Happening M E K)) :
    without id (putOff history) = putOff history := by
  apply List.filter_eq_self.mpr
  intro entry hentry
  obtain ⟨happening, -, hputsOff⟩ := List.mem_filterMap.mp hentry
  cases happening <;> try cases hputsOff
  rename_i reception
  cases reception <;> cases hputsOff
  simp [Entry.id?]

theorem succeeding_unregistered (id : Nat) :
    succeeding entries (history ++ [.unregistered id]) =
      without id (succeeding entries history) := by
  have hamong (entry : Entry K) : entry.isAmong [id] = decide (entry.id? = some id) := by
    cases entry <;> simp [Entry.isAmong, Entry.id?]
  have hleavers : leavers (history ++ [.unregistered id]) = leavers history := by
    rw [leavers_append]
    exact List.append_nil _
  have hunregistered :
      unregistered (history ++ [.unregistered id]) = unregistered history ++ [id] :=
    List.filterMap_append
  have hputOff : putOff (history ++ [.unregistered id]) = putOff history := by
    rw [putOff_append]
    exact List.append_nil _
  have henlisted : enlisted (history ++ [.unregistered id]) = without id (enlisted history) :=
    List.foldl_append
  have happend (first second : List (Entry K)) :
      without id (first ++ second) = without id first ++ without id second :=
    List.filter_append ..
  rw [succeeding, hleavers, hunregistered, hputOff, henlisted, succeeding, happend, happend,
    without_putOff]
  congr 2
  rw [without, List.filter_filter]
  apply List.filter_congr
  intro entry _
  rw [← List.append_assoc, Entry.isAmong_append, hamong, Bool.not_or, Bool.and_comm]
  simp

theorem Change.aftermath (h : Change s happenings s') (hc : s.Coherent) (hfinal : ¬event.isLast)
    (hlisted : ∀ k, listed k entries ≤ 1) (hrounds : rounds happenings = [])
    (ha : Aftermath event entries history s.phase) :
    Aftermath event entries (history ++ happenings) s'.phase := by
  have indifferent : Indifferent ([] : List (Happening M E K)) := ⟨rfl, rfl, rfl, fun _ => rfl⟩
  cases h with
  | rests => exact ha.indifferent indifferent
  | aside haside =>
    refine ha.indifferent ?_
    rcases haside.eq with ⟨_, _, rfl⟩ | ⟨_, _, rfl⟩ | ⟨_, _, _, rfl⟩ | ⟨_, _, rfl⟩ <;>
      exact ⟨rfl, rfl, rfl, fun _ => rfl⟩
  | registers =>
    cases ha
    exact (succeeding_join rfl rfl rfl fun _ => rfl).symm
  | awaits =>
    cases ha
    exact (succeeding_join rfl rfl rfl fun _ => rfl).symm
  | awaitsNothing => exact ha.indifferent ⟨rfl, rfl, rfl, fun _ => rfl⟩
  | unregisters id =>
    cases ha
    exact (succeeding_unregistered id).symm
  | pushes => simp [rounds, List.filterMap_cons] at hrounds
  | awaitsInside =>
    exact ha.calls rfl rfl rfl rfl (Pass.removals_postponed _ _) (Pass.newcomers_postponed _ _) rfl
  | unregistersInside =>
    exact ha.calls rfl rfl rfl rfl (Pass.removals_postponed _ _) (Pass.newcomers_postponed _ _) rfl
  | pushesInside =>
    exact ha.calls rfl rfl rfl rfl (Pass.removals_postponed _ _) (Pass.newcomers_postponed _ _) rfl
  | calls => exact ha.indifferent indifferent
  | @skips phase _ _ entry event' hdue heeds =>
    cases phase with
    | listening => cases hdue
    | dispatching owner pass =>
      obtain ⟨rest, hwaiting, -, hadvance⟩ := Phase.advance_dispatching true hdue
      rw [hadvance]
      exact ha.turn hlisted hwaiting (by simp) rfl rfl rfl rfl
    | ended => trivial
  | @gives _ _ _ entry =>
    refine ha.indifferent ?_
    cases entry <;> exact ⟨rfl, rfl, rfl, fun _ => rfl⟩
  | @leaves phase _ _ entry event' stays hdue =>
    have heeds := hc.heeds (.inr rfl) hdue
    cases phase with
    | listening => cases hdue
    | dispatching owner pass =>
      obtain ⟨rest, hwaiting, rfl, hadvance⟩ := Phase.advance_dispatching stays hdue
      rw [hadvance]
      refine ha.turn hlisted hwaiting ?_ ?_ rfl rfl rfl
      · rintro - hending
        cases entry with
        | observer => cases hending
        | ending => exact hfinal (ha.event ▸ heeds)
      · cases entry <;> cases stays <;> rfl
    | ended => trivial
  | reopens hwaiting hcommit =>
    obtain ⟨-, -, -, rfl⟩ := Pass.commit_listening hcommit
    rw [List.append_nil]
    exact ha.survivors hwaiting
  | goesOn => cases hrounds
  | _ => trivial

theorem Course.aftermath (h : Course start history s) (hc : start.Coherent) {owner : Nat}
    {queue : List (Event M E)}
    (hstart : start.phase = .dispatching owner { event, waiting := entries, queue })
    (hfinal : ¬event.isLast) (hlisted : ∀ k, listed k entries ≤ 1) (hrounds : rounds history = []) :
    Aftermath event entries history s.phase := by
  induction h with
  | refl =>
    rw [hstart]
    exact ⟨rfl, ⟨[], rfl, rfl, by simp [leavers]⟩, rfl, rfl, rfl⟩
  | step course hchange ih =>
    obtain ⟨hbefore, hnow⟩ := List.append_eq_nil_iff.mp (rounds_append .. ▸ hrounds)
    exact hchange.aftermath (course.coherent hc) hfinal hlisted hnow (ih hbefore)

/-- A point before its first pass: the list is made by calls alone. -/
def Beforehand (history : List (Happening M E K)) : Phase M E K → Prop
  | .listening now => now = enlisted history
  | .dispatching _ _ => False
  | .ended _ => True

theorem Beforehand.indifferent {phase : Phase M E K} (hb : Beforehand history phase)
    (h : Indifferent happenings) : Beforehand (history ++ happenings) phase := by
  cases phase with
  | listening now =>
    simp only [Beforehand]
    rw [enlisted_append, h.enlist]
    exact hb
  | dispatching => exact hb
  | ended => trivial

theorem Change.beforehand (h : Change s happenings s') (hrounds : rounds happenings = [])
    (hb : Beforehand history s.phase) : Beforehand (history ++ happenings) s'.phase := by
  have indifferent : Indifferent ([] : List (Happening M E K)) := ⟨rfl, rfl, rfl, fun _ => rfl⟩
  cases h with
  | rests => exact hb.indifferent indifferent
  | aside haside =>
    refine hb.indifferent ?_
    rcases haside.eq with ⟨_, _, rfl⟩ | ⟨_, _, rfl⟩ | ⟨_, _, _, rfl⟩ | ⟨_, _, rfl⟩ <;>
      exact ⟨rfl, rfl, rfl, fun _ => rfl⟩
  | registers =>
    cases hb
    change _ = enlisted _
    rw [enlisted_append]
    rfl
  | awaits =>
    cases hb
    change _ = enlisted _
    rw [enlisted_append]
    rfl
  | awaitsNothing => exact hb.indifferent ⟨rfl, rfl, rfl, fun _ => rfl⟩
  | unregisters id =>
    cases hb
    change _ = enlisted _
    rw [enlisted_append]
    rfl
  | pushes => simp [rounds, List.filterMap_cons] at hrounds
  | calls => exact hb.indifferent indifferent
  | @gives _ _ _ entry =>
    refine hb.indifferent ?_
    cases entry <;> exact ⟨rfl, rfl, rfl, fun _ => rfl⟩
  | @skips phase _ _ _ _ hdue =>
    cases phase with
    | listening => cases hdue
    | dispatching => exact hb.elim
    | ended => trivial
  | @leaves phase _ _ _ _ _ hdue =>
    cases phase with
    | listening => cases hdue
    | dispatching => exact hb.elim
    | ended => trivial
  | _ => first | exact hb.elim | trivial

theorem Course.beforehand (h : Course .initial history s) (hrounds : rounds history = []) :
    Beforehand history s.phase := by
  induction h with
  | refl => rfl
  | step course hchange ih =>
    obtain ⟨hbefore, hnow⟩ := List.append_eq_nil_iff.mp (rounds_append .. ▸ hrounds)
    exact hchange.beforehand hnow (ih hbefore)

section
variable {early mid late : List (Happening M E K)} {event' : Event M E} {entries' : List (Entry K)}

theorem Course.at_begun (h : Course start history s)
    (heq : history = early ++ .begun event entries :: late) :
    ∃ before now happenings now', Course start before now ∧ Change now happenings now' ∧
      Course now' late s ∧ before ++ happenings = early ++ [.begun event entries] ∧
      (now.phase = .listening entries ∧ early = before ++ [.pushed event .taken] ∨
        ∃ owner pass, now.phase = .dispatching owner pass ∧ pass.waiting = [] ∧
          ¬pass.event.isLast ∧ entries = pass.survivors ∧ early = before) ∧
      now'.service = .between ∧
      ∃ owner queue, now'.phase = .dispatching owner { event, waiting := entries, queue } := by
  obtain ⟨before, now, first, last, now', after, hbefore, hchange, hafter, rfl, rfl⟩ := h.split heq
  obtain ⟨hnow, hopen⟩ := hchange.eq_begun (List.mem_append_right _ List.mem_cons_self)
  rcases hnow with ⟨hphase, hone⟩ | ⟨owner, pass, hphase, hwaiting, hfinal, hentries, hone⟩
  · obtain ⟨rfl, rfl⟩ : first = [.pushed event .taken] ∧ last = [] := by
      cases first <;> simp_all [List.append_eq_singleton_iff]
    exact ⟨before, now, _, now', hbefore, hchange, hafter, by simp, .inl ⟨hphase, rfl⟩, hopen⟩
  · obtain ⟨rfl, rfl⟩ : first = [] ∧ last = [] := by
      cases first <;> simp_all
    refine ⟨before, now, _, now', hbefore, hchange, hafter, by simp,
      .inr ⟨owner, pass, hphase, hwaiting, hfinal, hentries, ?_⟩, hopen⟩
    exact List.append_nil before

theorem Course.listed_begun (h : Course .initial history s) (hm : .begun event entries ∈ history)
    (k : Key) : listed k entries ≤ 1 := by
  obtain ⟨early, late, heq⟩ := List.append_of_mem hm
  obtain ⟨before, now, happenings, opened, hbefore, hchange, -, -, -, hbetween, owner, queue,
    hopen⟩ := h.at_begun heq
  have ht := (hbefore.step hchange).tallied
  have hatMost := ht.atMost k
  have honce := ht.once k
  have hpending : opened.pending = entries := by
    obtain ⟨phase, v, i, n⟩ := opened
    cases hopen
    cases hbetween
    simp
  rw [hpending] at hatMost
  omega

/-- The first pass begins with those who have come to the point. -/
theorem Course.first_round (h : Course .initial history s)
    (heq : history = early ++ .begun event entries :: late) (hearly : rounds early = []) :
    entries = enlisted early := by
  obtain ⟨before, now, _, now', hbefore, -, -, -, hnow, -⟩ := h.at_begun heq
  rcases hnow with ⟨hphase, rfl⟩ | ⟨owner, pass, hphase, -, -, -, rfl⟩
  · obtain ⟨hrounds, -⟩ := List.append_eq_nil_iff.mp (rounds_append .. ▸ hearly)
    have hlist := hbefore.beforehand hrounds
    rw [hphase] at hlist
    rw [enlisted_append]
    exact hlist
  · have hnone := hbefore.beforehand hearly
    rw [hphase] at hnone
    exact hnone.elim

/-- The next pass begins with what has become of the list. -/
theorem Course.next_round (h : Course .initial history s)
    (heq : history = early ++ .begun event entries :: (mid ++ .begun event' entries' :: late))
    (hmid : rounds mid = []) : entries' = succeeding entries mid := by
  obtain ⟨before, now, happenings, opened, hbefore, hchange, hafter, hsplit, -, -, owner, queue,
    hopen⟩ := h.at_begun heq
  obtain ⟨between, next, _, _, hbetween, -, -, -, hnext, -⟩ := hafter.at_begun rfl
  have hlisted := h.listed_begun (heq ▸ List.mem_append_right _ List.mem_cons_self)
  have hopened := hbefore.step hchange
  have hc := hopened.coherent Standing.initial_coherent
  -- the first pass was not the final one, since another has begun
  have hcourse : Course .initial (before ++ happenings ++ between) next := hopened.trans hbetween
  have hfinal : ¬event.isLast := by
    have hunfinished : Unfinished (before ++ happenings ++ between) := by
      have hfinale := hcourse.finale
      rcases hnext with ⟨hphase, -⟩ | ⟨owner, pass, hphase, -, hlast, -⟩
      · rwa [hphase] at hfinale
      · rw [hphase] at hfinale
        exact hfinale.unfinished hlast
    have hbegun := hunfinished (.begun event entries) (by rw [hsplit]; simp)
    simpa [Happening.isFinal] using hbegun
  rcases hnext with ⟨hphase, rfl⟩ | ⟨owner, pass, hphase, hwaiting, -, hentries, rfl⟩
  · obtain ⟨hrounds, -⟩ := List.append_eq_nil_iff.mp (rounds_append .. ▸ hmid)
    have hlist := hbetween.aftermath hc hopen hfinal hlisted hrounds
    rw [hphase] at hlist
    rw [succeeding_indifferent ⟨rfl, rfl, rfl, fun _ => rfl⟩]
    exact hlist
  · have hmidway := hbetween.aftermath hc hopen hfinal hlisted hmid
    rw [hphase] at hmidway
    rw [hentries, hmidway.survivors hwaiting]

end
end Exchange
