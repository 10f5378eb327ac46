import Exchange.Proofs.Custody
import Exchange.Proofs.Enactment
import Exchange.Proofs.Finale
import Exchange.Proofs.OpenPoint
import Exchange.Proofs.Sparing

/-!
Silence after a registration is taken back. On an open point the observer leaves the list at once, and who
has left the list never comes back. On a point that has ended nothing is taken back any more: there an
observer that still waits for the final event is given it, even though its registration is gone.
-/

namespace Exchange
set_option autoImplicit false

variable {M E K H : Type} {client : Client M E K H} {w : World M E K H} {p t id : Nat}
variable {s s' : Standing M E K} {earlier happenings later : List (Happening M E K)}

namespace Happening

/-- A call on the point. -/
def isCall : Happening M E K → Bool
  | .registered _ _ _ | .unregistered _ | .awaited _ _ _ | .pushed _ _ => true
  | _ => false

theorem isTurn_of_turns {k : Key} {happening : Happening M E K} (h : happening.turns k) :
    happening.isTurn := by
  cases happening <;> simp_all [turns, isTurn]

theorem isTurn_given (entry : Entry K) (event : Event M E) (phase : Phase M E K) :
    (entry.given event phase.occasion).isTurn := by
  cases entry <;> simp [Entry.given, isTurn, phase.occasion_ne_call]

theorem turns_given (k : Key) (entry : Entry K) (event : Event M E) :
    (entry.given event .farewell).turns k = entry.goesBy k := by
  cases entry <;> simp [Entry.given, turns, Entry.goesBy]

end Happening

/-! ## Who has left the list -/

/-- The observer of that number has been on the list, and is so no more. -/
structure Standing.Rid (s : Standing M E K) (id : Nat) : Prop where
  absent : ∀ entry ∈ s.entries, ¬entry.goesBy (.observer id)
  numbered : id < s.nextId

theorem Happening.joins_of_brings {happening : Happening M E K} {entry : Entry K}
    (h : happening.Brings entry) (hid : entry.goesBy (.observer id)) :
    happening.joins (.observer id) := by
  cases entry with
  | observer =>
    rw [h.eq_registered]
    simpa [Happening.joins, Entry.goesBy] using hid
  | ending => simp [Entry.goesBy] at hid

/-- Nobody comes back whose registration was taken back, and nobody else gets the number. -/
theorem Change.rid (h : Change s happenings s') (hs : s.Rid id) :
    s'.Rid id ∧ ∀ happening ∈ happenings, ¬happening.turns (.observer id) := by
  obtain ⟨hkeeps, hjoined⟩ := h.numbers (.observer id)
  refine ⟨⟨?_, hkeeps hs.numbered⟩, ?_⟩
  · intro entry hentry hid
    rcases h.entries entry hentry with hold | ⟨happening, hmem, hbrings⟩
    · exact hs.absent entry hold hid
    · have hjoins := Happening.joins_of_brings hbrings hid
      have hpos : 0 < joined (.observer id) happenings :=
        List.countP_pos_iff.mpr ⟨happening, hmem, hjoins⟩
      rcases hjoined with hnone | ⟨-, hfresh, -⟩
      · omega
      · exact hfresh hs.numbered
  · intro happening hmem hturns
    obtain ⟨entry, event, hdue, -, rfl⟩ := h.eq_given hmem hturns
    obtain rfl := List.mem_singleton.mp hmem
    refine hs.absent entry (Standing.mem_entries_of_due hdue) ?_
    cases entry <;> simp_all [Entry.given, Happening.turns, Entry.goesBy]

theorem Course.rid (h : Course s later s') (hs : s.Rid id) :
    s'.Rid id ∧ ∀ happening ∈ later, ¬happening.turns (.observer id) := by
  induction h with
  | refl => exact ⟨hs, by simp⟩
  | step _ hchange ih =>
    obtain ⟨hrid, hsilent⟩ := ih
    obtain ⟨hrid', hsilent'⟩ := hchange.rid hrid
    refine ⟨hrid', ?_⟩
    intro happening hmem
    rcases List.mem_append.mp hmem with hmem | hmem
    · exact hsilent happening hmem
    · exact hsilent' happening hmem

theorem goesBy_of_mem_without {entries : List (Entry K)} {entry : Entry K}
    (h : entry ∈ without id entries) : ¬entry.goesBy (.observer id) := by
  have hid := (List.mem_filter.mp h).2
  cases entry <;> simp_all [Entry.goesBy, Entry.id?]

/-- A registration that is taken back on an open point is off the list. -/
theorem Change.rid_of_unregistered {entries : List (Entry K)} (h : Change s happenings s')
    (hs : s.phase = .listening entries) (hid : id < s.nextId)
    (hm : .unregistered id ∈ happenings) : s'.Rid id := by
  refine ⟨?_, (h.numbers (.observer id)).1 hid⟩
  cases h with
  | aside ha => rcases ha.eq with ⟨_, _, rfl⟩ | ⟨_, _, rfl⟩ | ⟨_, _, _, rfl⟩ | ⟨_, _, rfl⟩ <;> simp at hm
  | unregisters other =>
    obtain rfl : id = other := by simpa using hm
    intro entry hentry
    exact goesBy_of_mem_without hentry
  | unregistersLast other =>
    obtain rfl : id = other := by simpa using hm
    intro entry hentry
    exact goesBy_of_mem_without hentry
  | gives hdue => exact absurd hs (Phase.ne_listening_of_due hdue entries)
  | unregistersInside => cases hs
  | unregistersLate => cases hs
  | _ => simp at hm

/-- The number that is given is the next one. -/
theorem Change.eq_nextId {interest : Interest} {code : K} (h : Change s happenings s')
    (hm : .registered id interest code ∈ happenings) : id = s.nextId := by
  cases h with
  | registers => simp_all
  | aside ha => rcases ha.eq with ⟨_, _, rfl⟩ | ⟨_, _, rfl⟩ | ⟨_, _, _, rfl⟩ | ⟨_, _, rfl⟩ <;> simp at hm
  | @gives _ _ _ entry => cases entry <;> simp [Entry.given] at hm
  | _ => simp at hm

theorem Course.registered_bounds {interest : Interest} {code : K} (h : Course .initial earlier s)
    (hm : .registered id interest code ∈ earlier) : 1 ≤ id ∧ id < s.nextId := by
  constructor
  · obtain ⟨early, late, heq⟩ := List.append_of_mem hm
    obtain ⟨before, now, first, last, now', after, hbefore, hchange, -⟩ := h.split heq
    rw [hchange.eq_nextId (List.mem_append_right _ List.mem_cons_self)]
    exact hbefore.ascending.first
  · by_contra hnot
    have hnone := h.tallied.fresh (.observer id) hnot
    have hjoined : 0 < joined (.observer id) earlier :=
      List.countP_pos_iff.mpr ⟨_, hm, by simp [Happening.joins]⟩
    omega

/-! ## Points that nobody calls -/

/-- Nobody has a turn on a point that no call serves, as long as no call is made on it. -/
theorem Change.idle (h : Change s happenings s') (hs : s.service = .idle)
    (hcalls : ∀ happening ∈ happenings, happening.isCall = false) :
    s'.service = .idle ∧ ∀ happening ∈ happenings, happening.isTurn = false := by
  cases h with
  | rests => exact ⟨hs, by simp⟩
  | aside ha =>
    refine ⟨hs, ?_⟩
    rcases ha.eq with ⟨_, _, rfl⟩ | ⟨_, _, rfl⟩ | ⟨_, _, _, rfl⟩ | ⟨_, _, rfl⟩ <;>
      simp [Happening.isTurn]
  | calls => cases hs
  | skips => cases hs
  | gives => cases hs
  | leaves => cases hs
  | reopens => cases hs
  | goesOn => cases hs
  | ends => cases hs
  | drops => cases hs
  | retires => cases hs
  | _ => simp [Happening.isCall] at hcalls

theorem Course.idle (h : Course s later s') (hs : s.service = .idle)
    (hcalls : ∀ happening ∈ later, happening.isCall = false) :
    s'.service = .idle ∧ ∀ happening ∈ later, happening.isTurn = false := by
  induction h with
  | refl => exact ⟨hs, by simp⟩
  | step _ hchange ih =>
    simp only [List.mem_append, or_imp, forall_and] at hcalls ⊢
    obtain ⟨hidle, hnone⟩ := ih hcalls.1
    obtain ⟨hidle', hnone'⟩ := hchange.idle hidle hcalls.2
    exact ⟨hidle', hnone, hnone'⟩

/-! ## After the end -/

/-- After the end those who are still to be told are given the final event, one after the other. -/
theorem Change.farewell {farewell : Farewell M E K} (h : Change s happenings s') (ht : s.Tidy)
    (hs : s.phase = .ended farewell) :
    (∃ farewell', s'.phase = .ended farewell' ∧ farewell'.event = farewell.event) ∧
      happenings.filter Happening.isTurn ++ s'.pending.map (Entry.given farewell.event .farewell) =
        s.pending.map (Entry.given farewell.event .farewell) := by
  cases h with
  | rests => exact ⟨⟨farewell, hs, rfl⟩, rfl⟩
  | aside ha =>
    refine ⟨⟨farewell, hs, rfl⟩, ?_⟩
    rcases ha.eq with ⟨_, _, rfl⟩ | ⟨_, _, rfl⟩ | ⟨_, _, _, rfl⟩ | ⟨_, _, rfl⟩ <;>
      simp [Happening.isTurn]
  | awaitsLate => exact ⟨⟨farewell, hs, rfl⟩, by simp [Happening.isTurn]⟩
  | unregistersLate => exact ⟨⟨farewell, hs, rfl⟩, by simp [Happening.isTurn]⟩
  | pushesLate => exact ⟨⟨farewell, hs, rfl⟩, by simp [Happening.isTurn]⟩
  | calls =>
    cases hs
    exact ⟨⟨farewell, rfl, rfl⟩, rfl⟩
  | skips hdue heeds =>
    cases hs
    obtain ⟨rest, -, rfl, -⟩ := Phase.advance_ended true hdue
    exact absurd (Standing.heeds_of_isLast (ht.last _ rfl) _) heeds
  | @gives _ _ _ entry _ hdue =>
    cases hs
    obtain ⟨rest, hwaiting, rfl, -⟩ := Phase.advance_ended true hdue
    refine ⟨⟨farewell, rfl, rfl⟩, ?_⟩
    have hturn : (entry.given farewell.event .farewell).isTurn := Happening.isTurn_given entry _ (.ended farewell)
    simp [Phase.occasion, hturn, hwaiting]
  | leaves stays hdue =>
    cases hs
    obtain ⟨rest, hwaiting, rfl, hadvance⟩ := Phase.advance_ended stays hdue
    rw [hadvance]
    exact ⟨⟨_, rfl, rfl⟩, by simp [hwaiting, Happening.isTurn]⟩
  | drops =>
    cases hs
    exact ⟨⟨_, rfl, rfl⟩, by simp [Happening.isTurn]⟩
  | retires =>
    cases hs
    exact ⟨⟨_, rfl, rfl⟩, by simp⟩
  | _ => cases hs

theorem Course.farewell {farewell : Farewell M E K} (course : Course .initial earlier s)
    (h : Course s later s') (hs : s.phase = .ended farewell) :
    (∃ farewell', s'.phase = .ended farewell' ∧ farewell'.event = farewell.event) ∧
      later.filter Happening.isTurn ++ s'.pending.map (Entry.given farewell.event .farewell) =
        s.pending.map (Entry.given farewell.event .farewell) := by
  induction h with
  | refl => exact ⟨⟨farewell, hs, rfl⟩, rfl⟩
  | @step _ _ now _ before hchange ih =>
    obtain ⟨⟨farewell', hnow, hevent⟩, hturns⟩ := ih
    obtain ⟨⟨farewell'', hphase, hevent'⟩, hturns'⟩ :=
      hchange.farewell (course.trans before).tallied.tidy hnow
    rw [hevent] at hturns' hevent'
    refine ⟨⟨farewell'', hphase, hevent'⟩, ?_⟩
    rw [List.filter_append, List.append_assoc, hturns', hturns]

theorem Course.farewell_turns {farewell : Farewell M E K} (course : Course .initial earlier s)
    (h : Course s later s') (hs : s.phase = .ended farewell) (id : Nat) :
    later.filter (Happening.turns (.observer id)) ++
      (s'.pending.filter (Entry.goesBy (.observer id))).map (Entry.given farewell.event .farewell) =
        (s.pending.filter (Entry.goesBy (.observer id))).map
          (Entry.given farewell.event .farewell) := by
  have hturns := congrArg (List.filter (Happening.turns (.observer id))) (course.farewell h hs).2
  have hkey : Happening.turns (.observer id) ∘ Entry.given farewell.event .farewell =
      (Entry.goesBy (.observer id) : Entry K → Bool) :=
    funext fun entry => Happening.turns_given (.observer id) entry farewell.event
  have hturn : later.filter (fun happening => happening.turns (.observer id) && happening.isTurn) =
      later.filter (Happening.turns (.observer id)) := by
    apply List.filter_congr
    intro happening _
    rw [Bool.and_eq_left_iff_imp]
    exact Happening.isTurn_of_turns
  rwa [List.filter_append, List.filter_filter, hturn, List.filter_map, List.filter_map, hkey]
    at hturns

/-- An observer whose point has ended is told no more, if it has been told or has left the list before;
else it is still waiting, and is told once. -/
theorem Course.turns_after_end {farewell : Farewell M E K} {interest : Interest} {code : K}
    (course : Course .initial earlier s) (h : Course s later s') (hs : s.phase = .ended farewell)
    (hgiven : .registered id interest code ∈ earlier) :
    (later.filter (Happening.turns (.observer id)) = [] ∧
      (0 < told (.observer id) earlier ∨
        ∃ happening ∈ earlier, happening.loses (.observer id))) ∨
    (.observer id interest code ∈ farewell.waiting ∧ told (.observer id) earlier = 0 ∧
      later.filter (Happening.turns (.observer id)) <+:
        [.presented id code farewell.event .farewell] ∧
      (s'.service = .idle → later.filter (Happening.turns (.observer id)) =
        [.presented id code farewell.event .farewell])) := by
  have hmine := course.farewell_turns h hs id
  have ht := course.tallied
  have hjoined : 0 < joined (.observer id) earlier :=
    List.countP_pos_iff.mpr ⟨_, hgiven, by simp [Happening.joins]⟩
  have hmost := ht.atMost (.observer id)
  have honce := ht.once (.observer id)
  have hlisted : listed (.observer id) s.pending =
      (s.pending.filter (Entry.goesBy (.observer id))).length := List.countP_eq_length_filter
  cases hpending : s.pending.filter (Entry.goesBy (.observer id)) with
  | nil =>
    left
    rw [hpending, List.map_nil, List.append_eq_nil_iff] at hmine
    refine ⟨hmine.1, ?_⟩
    by_contra hnot
    push Not at hnot
    have hexact := ht.exact (.observer id) fun happening hmem => by simpa using hnot.2 happening hmem
    rw [hpending, List.length_nil] at hlisted
    omega
  | cons entry rest =>
    right
    rw [hpending, List.length_cons] at hlisted
    obtain rfl : rest = [] := List.eq_nil_of_length_eq_zero (by omega)
    obtain ⟨hmem, hkey⟩ := List.mem_filter.mp (hpending ▸ List.mem_cons_self)
    have hwaiting : entry ∈ farewell.waiting := by
      obtain ⟨phase, v, i, n⟩ := s
      cases hs
      rw [Standing.pending_ended] at hmem
      split at hmem
      · exact List.mem_of_mem_tail hmem
      · exact hmem
    obtain ⟨other, hother, hbrings⟩ :=
      course.entries_brought entry (by simpa only [Standing.entries, hs])
    cases entry with
    | ending => simp [Entry.goesBy] at hkey
    | observer id' interest' code' =>
      obtain rfl : id' = id := by simpa [Entry.goesBy] using hkey
      obtain rfl := hbrings.eq_registered
      cases ht.eq_of_joins (k := .observer id') hother hgiven (by simp [Happening.joins])
        (by simp [Happening.joins])
      rw [hpending] at hmine
      refine ⟨hwaiting, by omega, ⟨_, hmine⟩, ?_⟩
      intro hidle
      obtain ⟨⟨farewell', hs', -⟩, -⟩ := course.farewell h hs
      rw [(course.trans h).pending_eq_nil (by rw [hs']; rfl) hidle] at hmine
      simpa [Entry.given] using hmine

/-! ## Runs -/

/-- The registration of an observer is taken back at that moment, and not from inside a pass. -/
structure Moment.TakesBack (p id : Nat) (m : Moment M E K H) : Prop where
  call : ∃ t below, m.thread = ⟨t, .perform (.unregister ⟨some p, id⟩), below⟩
  outside : ∀ owner pass, m.world.phase p ≠ .dispatching owner pass

theorem Moment.TakesBack.unregistered {m : Moment M E K H} (h : m.TakesBack p id)
    (halive : m.world.isAlive p) {point : Point M E K} (hp : m.world.points[p]? = some point) :
    .unregistered id ∈ m.happenings p := by
  obtain ⟨world, thread⟩ := m
  obtain ⟨⟨t, below, rfl⟩, -⟩ := h
  dsimp only at halive hp
  simp only [Moment.happenings, World.receives, hp, halive, and_self, if_true, Point.receives]
  split <;> simp

theorem Moment.TakesBack.of_gone {m : Moment M E K H} (h : m.TakesBack p id)
    (hgone : ¬m.world.isAlive p) : m.happenings p = [] := by
  obtain ⟨world, thread⟩ := m
  obtain ⟨⟨t, below, rfl⟩, -⟩ := h
  simp only [Moment.happenings, World.receives, hgone]
  split <;> simp

theorem Happening.isDeed_of_turns {k : Key} {happening : Happening M E K} (h : happening.turns k) :
    happening.isDeed := by
  cases happening <;> simp_all [turns, isDeed]

theorem Moment.TakesBack.no_turn {m : Moment M E K H} (h : m.TakesBack p id) (k : Key) :
    (m.happenings p).filter (Happening.turns k) = [] := by
  apply List.filter_eq_nil_iff.mpr
  intro happening hmem hturns
  obtain ⟨due, hdue, -⟩ := Moment.act_of_deed hmem (Happening.isDeed_of_turns hturns)
  obtain ⟨t, below, hthread⟩ := h.call
  rw [hthread] at hdue
  cases hdue

/-- An observer whose registration is taken back on an open point is off the list. -/
theorem Moment.TakesBack.rid {m : Moment M E K H} {interest : Interest} {code : K}
    (h : m.TakesBack p id) (course : Course .initial earlier s) (stands : m.world.Stands p s)
    (hchange : Change s (m.happenings p) s') (hgiven : .registered id interest code ∈ earlier)
    (halive : m.world.isAlive p) (hopen : (m.world.phase p).isListening) : s'.Rid id := by
  obtain ⟨hfirst, hid⟩ := course.registered_bounds hgiven
  have hnext : s.nextId = m.world.nextId p := congrArg Standing.nextId stands.eq
  cases hp : m.world.points[p]? with
  | none =>
    have hnone : m.world.nextId p = 1 := by simp [World.nextId, hp]
    omega
  | some point =>
    cases hphase : m.world.phase p with
    | listening entries =>
      exact hchange.rid_of_unregistered (stands.phase_eq.trans hphase) hid (h.unregistered halive hp)
    | _ =>
      rw [hphase] at hopen
      cases hopen

/-- Once its registration has been taken back on an open point, an observer has no turn any more; nor
has it on a point that is gone, as long as nobody calls it. On a point that has ended nothing is taken
back: unless the observer has seen its final event, or has left the list by itself, it is still waiting
for it, and is given it once. A turn is a run of the observer's code, and no code is run without one. -/
theorem unregistered_observers_stay_silent {host : H} {trail before after : List (Moment M E K H)}
    {m : Moment M E K H} {interest : Interest} {code : K} (run : Run client (.initial host) trail w)
    (hr : SinksReturn trail) (htrail : trail = before ++ m :: after) (hm : m.TakesBack p id)
    (hgiven : .registered id interest code ∈ history p before) :
    Enacted client p trail ∧
    (m.world.isAlive p → (m.world.phase p).isListening →
      (history p after).filter (Happening.turns (.observer id)) = []) ∧
    (¬m.world.isAlive p → (∀ happening ∈ history p after, happening.isCall = false) →
      (history p after).filter (Happening.turns (.observer id)) = []) ∧
    ∀ farewell, m.world.phase p = .ended farewell →
      ((history p after).filter (Happening.turns (.observer id)) = [] ∧
        (0 < told (.observer id) (history p before) ∨
          ∃ happening ∈ history p before, happening.loses (.observer id))) ∨
      (.observer id interest code ∈ farewell.waiting ∧ told (.observer id) (history p before) = 0 ∧
        (history p after).filter (Happening.turns (.observer id)) <+:
          [.presented id code farewell.event .farewell] ∧
        (¬w.IsServed p → (history p after).filter (Happening.turns (.observer id)) =
          [.presented id code farewell.event .farewell])) := by
  obtain ⟨s, s', s'', course, stands, hchange, hlater, stands''⟩ := run.course_through hr htrail p
  refine ⟨run.enacted hr p, ?_, ?_, ?_⟩
  · intro halive hopen
    have hrid := hm.rid course stands hchange hgiven halive hopen
    exact List.filter_eq_nil_iff.mpr (hlater.rid hrid).2
  · intro hgone hcalls
    have hidle := stands.idle fun hserved => hgone (World.isAlive_of_isServed hserved)
    rw [hm.of_gone hgone] at hchange
    have hnone := (hlater.idle (hchange.idle hidle (by simp)).1 hcalls).2
    apply List.filter_eq_nil_iff.mpr
    intro happening hmem hturns
    have hturn := hnone happening hmem
    rw [Happening.isTurn_of_turns hturns] at hturn
    cases hturn
  · intro farewell hended
    have hall : Course s (m.happenings p ++ history p after) s'' :=
      (Course.refl.step hchange).trans hlater
    have hturns := course.turns_after_end hall (stands.phase_eq.trans hended) hgiven
    rw [List.filter_append, hm.no_turn, List.nil_append] at hturns
    refine hturns.imp_right ?_
    rintro ⟨hwaiting, hnot, hprefix, hidle⟩
    exact ⟨hwaiting, hnot, hprefix, fun hserved => hidle (stands''.idle hserved)⟩

/-- A client of whose observers those that part take back the third registration. -/
def partingClient : Client Unit Unit Bool Unit :=
  { plainClient with
    observer := fun parts _ =>
      if parts then .call (.unregister ⟨some 0, 3⟩) fun _ => .ret true else .ret true }

/-- Observer 1 is removed, which ends the point; observer 2 takes the third registration back while it is
given the tombstone itself; and then observer 3 is given it. -/
theorem unregistered_observers_stay_silent_parting :
    let calls := World.runCalls partingClient () [.create "request" .recorder,
      .register 0 .active false, .register 0 .passive true, .register 0 .passive false,
      .unregister ⟨some 0, 1⟩] 60
    ∃ before m after, calls.1 = before ++ m :: after ∧ m.TakesBack 0 3 ∧
      (history 0 after).filter (Happening.turns (.observer 3)) =
        [.presented 3 false .tombstone .farewell] := by
  intro calls
  have run : Run partingClient (.initial ()) calls.1 calls.2 :=
    World.run_runCalls partingClient () _ 60
  have hlength : 17 < calls.1.length := by decide
  have htrail : calls.1 = calls.1.take 17 ++ calls.1[17] :: calls.1.drop 18 := by
    rw [List.getElem_cons_drop, List.take_append_drop]
  have hm : calls.1[17].TakesBack 0 3 := by
    refine ⟨⟨0, _, rfl⟩, ?_⟩
    intro owner pass hpass
    cases hpass
  have hgiven : .registered 3 .passive false ∈ history 0 (calls.1.take 17) :=
    List.mem_of_getElem? (i := 2) rfl
  obtain ⟨-, -, -, h⟩ := unregistered_observers_stay_silent run (by decide) htrail hm hgiven
  have hended : calls.1[17].world.phase 0 =
      .ended ⟨.tombstone, [.observer 2 .passive true, .observer 3 .passive false], []⟩ := rfl
  obtain ⟨hnone, -⟩ | ⟨-, -, -, h⟩ := h _ hended
  · exact absurd hnone (by decide)
  · exact ⟨_, _, _, htrail, hm, h (by decide)⟩

end Exchange
