import Exchange.Proofs.InterestEnd
import Exchange.Proofs.Lifecycle
import Exchange.Proofs.Silence

/-!
Registrations taken back while no pass is open. A handle takes one entry from the list, its own, and the point
ends if nobody is left who holds it open. A handle whose observer is off the list does nothing at all: a point
that is open although nobody holds it open has lost nobody, so no handle of its own can be what ends it.
-/

namespace Exchange
set_option autoImplicit false

variable {M E K H : Type} {client : Client M E K H} {start w w' : World M E K H} {p t id : Nat}
variable {below stack : List (Frame M E K H)} {op : Op M E K} {host : H} {s : Standing M E K}
variable {entries : List (Entry K)} {past : List (Happening M E K)} {handle : Handle}
variable {trail during : List (Moment M E K H)}

/-! ## Handles -/

/-- The handle has been given to an observer of the point, which may have come too late to join. -/
inductive Handle.IsFrom (p : Nat) (past : List (Happening M E K)) : Handle → Prop
  | inert : IsFrom p past .inert
  | joined {id : Nat} {interest : Interest} {code : K} :
      .registered id interest code ∈ past → IsFrom p past ⟨some p, id⟩

theorem Handle.IsFrom.mono {more : List (Happening M E K)} (h : handle.IsFrom p past)
    (hmore : past ⊆ more) : handle.IsFrom p more := by
  cases h with
  | inert => exact .inert
  | joined hjoined => exact .joined (hmore hjoined)

/-- The call answers with the handle, at once or when it has told a latecomer. -/
def Move.Grants (p : Nat) (below : List (Frame M E K H)) (handle : Handle) (m : Move M E K H) : Prop :=
  m.control = .resume (.registered (.ok handle)) ∨
    ∃ todo, m.stack = .acts p todo (.registered (.ok handle)) :: below

/-- Whatever handle a register call answers with is one. -/
theorem World.handle_isFrom {interest : Interest} {code : K} {m : Move M E K H}
    (hm : w.perform client t below (.register p interest code) = some m) (hgrants : m.Grants p below handle) :
    handle.IsFrom p (w.receives p (.register p interest code)) := by
  unfold Move.Grants at hgrants
  cases hp : w.points[p]? with
  | none =>
    simp only [perform, hp, Option.some.injEq] at hm
    subst hm
    simp [Move.answer] at hgrants
  | some point =>
    cases hphase : point.phase with
    | listening entries =>
      simp only [perform, hp, register, hphase, Phase.access, Phase.isEnded] at hm
      cases hm
      obtain rfl : (⟨some p, point.nextId⟩ : Handle) = handle := by
        simpa [Move.answer] using hgrants
      have hjoined : .registered point.nextId interest code ∈
          w.receives p (.register p interest code) := by
        simp [receives, hp, Op.waitsFor?, Point.receives, hphase]
      exact .joined hjoined
    | dispatching owner pass =>
      by_cases howner : owner = t
      · simp only [perform, hp, register, hphase, Phase.access, if_pos howner] at hm
        cases hm
        simp [Move.acts] at hgrants
      · simp only [perform, hp, register, hphase, Phase.access, if_neg howner] at hm
        cases hm
    | ended farewell =>
      have hended : point.phase.isEnded := by rw [hphase, Phase.isEnded]
      cases (World.perform_register_late hp hended interest code).symm.trans hm
      obtain rfl : Handle.inert = handle := by simpa [Move.acts] using hgrants
      exact .inert

/-! ## The list without one observer -/

theorem without_eq_self (h : id ∉ observerIds entries) : without id entries = entries := by
  apply List.filter_eq_self.mpr
  intro entry hmem
  have hne : entry.id? ≠ some id := fun hid => h (List.mem_filterMap.mpr ⟨entry, hmem, hid⟩)
  exact decide_eq_true hne

theorem exists_of_mem_observerIds (h : id ∈ observerIds entries) :
    ∃ front interest code back, entries = front ++ .observer id interest code :: back := by
  obtain ⟨entry, hmem, hid⟩ := List.mem_filterMap.mp h
  obtain ⟨front, back, rfl⟩ := List.append_of_mem hmem
  cases entry with
  | observer _ interest code =>
    cases hid
    exact ⟨front, interest, code, back, rfl⟩
  | ending => cases hid

/-- Of observers in the order of their numbers one and no other has the number. -/
theorem without_of_pairwise {front back : List (Entry K)} {interest : Interest} {code : K}
    (h : (observerIds (front ++ .observer id interest code :: back)).Pairwise (· < ·)) :
    id ∉ observerIds (front ++ back) ∧
      without id (front ++ .observer id interest code :: back) = front ++ back := by
  rw [observerIds_append, observerIds_observer, List.pairwise_append, List.pairwise_cons] at h
  obtain ⟨-, ⟨hback, -⟩, hfront⟩ := h
  have hnotFront : id ∉ observerIds front := fun hmem =>
    Nat.lt_irrefl id (hfront id hmem id List.mem_cons_self)
  have hnotBack : id ∉ observerIds back := fun hmem => Nat.lt_irrefl id (hback id hmem)
  refine ⟨by simp [hnotFront, hnotBack], ?_⟩
  have hown : without id (.observer id interest code :: back) = without id back := by
    simp [without, Entry.id?]
  rw [show without id (front ++ .observer id interest code :: back) =
    without id front ++ without id (.observer id interest code :: back) from List.filter_append ..,
    hown, without_eq_self hnotFront, without_eq_self hnotBack]

/-- If an observer has left the list and the point is open, somebody holds it open. -/
theorem Course.held_of_absent {interest : Interest} {code : K} (h : Course .initial past s)
    (hphase : s.phase = .listening entries) (hjoined : .registered id interest code ∈ past)
    (habsent : id ∉ observerIds entries) : heldOpen entries := by
  by_contra hfree
  have hall := (h.dormant hphase hfree).entries_eq
  have hmem : .observer id interest code ∈ entries :=
    hall ▸ List.mem_filterMap.mpr ⟨_, hjoined, rfl⟩
  exact habsent (List.mem_filterMap.mpr ⟨_, hmem, rfl⟩)

/-- Who is not on the list has no turn when those on it are told. -/
theorem filter_turns_of_told {happenings : List (Happening M E K)} {event : Event M E}
    (h : happenings.filter Happening.isTurn <+: entries.map (Entry.given event .farewell))
    (habsent : id ∉ observerIds entries) :
    happenings.filter (Happening.turns (.observer id)) = [] := by
  apply List.filter_eq_nil_iff.mpr
  intro happening hmem hturns
  have htold := h.subset (List.mem_filter.mpr ⟨hmem, Happening.isTurn_of_turns hturns⟩)
  obtain ⟨entry, hentry, rfl⟩ := List.mem_map.mp htold
  rw [Happening.turns_given] at hturns
  refine habsent (List.mem_filterMap.mpr ⟨entry, hentry, ?_⟩)
  cases entry <;> simp_all [Entry.goesBy, Entry.id?]

/-! ## The call -/

namespace World

theorem setPhase_self {point : Point M E K} (hp : w.points[p]? = some point) :
    w.setPhase p point.phase = w := by
  have hpoints : w.points.modify p (fun other => { other with phase := point.phase }) = w.points := by
    apply List.ext_getElem?
    intro q
    rw [List.getElem?_modify]
    by_cases hq : p = q
    · subst hq
      simp [hp]
    · simp [hq]
  rw [setPhase, hpoints]

/-- A handle that has no point, or none any more, does nothing. -/
theorem unregister_gone (h : ∀ q, handle.point = some q → ¬w.isAlive q) :
    w.perform client t below (.unregister handle) = some (.answer w below .done) := by
  cases hpoint : handle.point with
  | none => simp [perform, hpoint]
  | some q =>
    have hgone := h q hpoint
    cases hq : w.points[q]? <;> simp [perform, unregister, hpoint, hq, hgone]

/-- What the call does on a point that is there and has no pass open. -/
theorem unregister_at_rest {point : Point M E K} (hp : w.points[p]? = some point) (halive : w.isAlive p)
    (houtside : ∀ owner pass, point.phase ≠ .dispatching owner pass) :
    w.perform client t below (.unregister ⟨some p, id⟩) =
      some (if (point.phase.remove id).isEnded && !point.phase.isEnded then
        .serve (w.setPhase p (point.phase.remove id)) below p
      else .answer (w.setPhase p (point.phase.remove id)) below .done) := by
  have haccess : point.phase.access t = .free := by
    cases h : point.phase with
    | dispatching owner pass => exact absurd h (houtside owner pass)
    | _ => rfl
  simp only [perform, hp, unregister, halive, haccess, Bool.not_true, Bool.false_eq_true, if_false]
  split <;> rfl

end World

theorem Course.getElem?_of_registered {interest : Interest} {code : K}
    (h : Course .initial past s) (stands : w.Stands p s)
    (hjoined : .registered id interest code ∈ past) : ∃ point, w.points[p]? = some point := by
  obtain ⟨hfirst, hid⟩ := h.registered_bounds hjoined
  have hnext : s.nextId = w.nextId p := congrArg Standing.nextId stands.eq
  cases hp : w.points[p]? with
  | none =>
    have hnone : w.nextId p = 1 := by simp [World.nextId, hp]
    omega
  | some point => exact ⟨point, rfl⟩

/-- The observer of that number is on the list of the open point. -/
def World.Lists (w : World M E K H) (p id : Nat) : Prop :=
  ∃ entries, w.phase p = .listening entries ∧ id ∈ observerIds entries

/-- A call on an open point that ends it takes back a registration. -/
theorem Change.ends_listening {happenings : List (Happening M E K)} {s' : Standing M E K}
    {farewell : Farewell M E K} (h : Change s happenings s') (hs : s.phase = .listening entries)
    (hidle : s.service = .idle) (hended : s'.phase = .ended farewell) :
    (∀ happening ∈ happenings, happening.isTurn = false) ∧ s'.pending = farewell.waiting := by
  cases h with
  | unregistersLast =>
    cases hended
    simp [Happening.isTurn]
  | rests => cases hs.symm.trans hended
  | aside => cases hs.symm.trans hended
  | ends => cases hidle
  | calls => cases hidle
  | skips => cases hidle
  | gives => cases hidle
  | leaves => cases hidle
  | drops => cases hidle
  | retires => cases hidle
  | awaitsLate => cases hs
  | unregistersLate => cases hs
  | pushesLate => cases hs
  | _ => cases hended

/-- While one thread has a call that serves the point, no other thread attends to it. -/
theorem World.Stands.clear_beside {thread other : Thread M E K H} (h : w.Stands p s)
    (hmem : thread ∈ w.threads) (hserving : .serving p ∈ thread.stack) (hother : other ∈ w.threads)
    (hne : other.id ≠ thread.id) : Clear p other.stack := by
  have hattended := h.attended
  generalize s.service = v at hattended
  cases hattended with
  | idle hall => exact absurd (hall thread hmem) (not_clear_of_serving hserving)
  | served server _ _ _ hothers =>
    have hserver : thread.id = server.id := by
      by_contra hnot
      exact not_clear_of_serving hserving (hothers thread hmem hnot)
    exact hothers other hother (hserver ▸ hne)

theorem Clear.not_serves (h : Clear p stack) {frame : Frame M E K H} (hmem : frame ∈ stack) :
    ¬frame.serves p := by
  intro hserves
  have hattends := h frame hmem
  cases frame <;> simp_all [Frame.serves, Frame.attends]

/-- Once a call is back that has served the point, nobody serves it any more. -/
theorem Call.unserved {first : List (Moment M E K H)} (call : Call client t below op start during w)
    (run : Run client (.initial host) first start) (hr : SinksReturn (first ++ during))
    (hopen : (start.phase p).isListening)
    (hserves : ∀ m, start.perform client t below op = some m → m.stack = .serving p :: below)
    (hback : w.IsBack t below) : ¬w.IsServed p := by
  obtain ⟨hfirst, hduring⟩ := sinksReturn_append.mp hr
  have hstart := run.sound (World.initial_sound host) hfirst
  have hbelow : Clear p below := by
    obtain ⟨s, course, stands⟩ := run.course_of_initial hfirst p
    exact stands.clear_of_listening (course.coherent Standing.initial_coherent) hopen
      (World.mem_of_thread? call.thread?_eq)
  cases call with
  | made ht hs =>
    obtain ⟨m, hm, hthread⟩ := World.thread?_of_step hstart.orderly ht hs
    rw [hserves m hm] at hthread
    exact absurd hthread (hback.not_above [])
  | @step during u w n thread call hnot hn hstep =>
    obtain ⟨hearlier, -⟩ := sinksReturn_append.mp hduring
    have hu := call.run.sound hstart hearlier
    obtain ⟨other, above, hserver⟩ := (call.serving hstart hearlier hserves).resolve_left
      fun h => hnot ⟨_, h, trivial⟩
    obtain ⟨⟨m, hm, stepped⟩, ho⟩ := World.step_stepped hu.orderly hn hstep
    -- the frame of the call is gone, so this last step was its own
    obtain rfl : n = t := by
      by_contra hne
      exact hback.not_above above (stepped.keeps ho hserver (Ne.symm hne) (by simp))
    cases hn.symm.trans hserver
    obtain ⟨s, -, stands⟩ := (run.trans call.run).course_of_initial
      (sinksReturn_append.mpr ⟨hfirst, hearlier⟩) p
    obtain ⟨control, hcaller, -⟩ := hback
    rintro ⟨thread, hmem, frame, hframe, hfserves⟩
    by_cases hid : thread.id = n
    · obtain rfl := ho.eq_of_id_eq hmem (World.mem_of_thread? hcaller) hid
      exact hbelow.not_serves hframe hfserves
    · rcases stepped.succession.others_after hmem with rfl | hbefore | hbare
      · exact hid rfl
      · have hclear := stands.clear_beside (World.mem_of_thread? hn) (by simp) hbefore hid
        exact hclear.not_serves hframe hfserves
      · rw [hbare.stack_eq] at hframe
        exact List.not_mem_nil hframe
  | between call hnot hb =>
    obtain ⟨other, above, hserver⟩ := (call.serving hstart hduring hserves).resolve_left
      fun h => hnot ⟨_, h, trivial⟩
    obtain ⟨hinterlude, ho⟩ := World.between_interlude (call.run.sound hstart hduring).orderly hb
    exact absurd (World.keeps_of_interlude hinterlude ho hserver (by simp)) (hback.not_above above)

/-- A moment at which no entry has its turn. -/
theorem turns_of_none {moment : Moment M E K H} {later : List (Moment M E K H)}
    (hnone : ∀ happening ∈ moment.happenings p, happening.isTurn = false) :
    (history p (moment :: later)).filter Happening.isTurn =
      (history p later).filter Happening.isTurn := by
  have hfilter : (moment.happenings p).filter Happening.isTurn = [] := by
    apply List.filter_eq_nil_iff.mpr
    intro happening hmem
    simp [hnone happening hmem]
  simp only [history, List.flatMap_cons, List.filter_append, hfilter, List.nil_append]

section
variable (run : Run client (.initial host) trail w) (hr : SinksReturn trail)
include run hr

/-- A handle whose observer is not on the list does nothing. -/
theorem Run.unregister_absent (houtside : ∀ owner pass, w.phase p ≠ .dispatching owner pass)
    (hfrom : handle.IsFrom p (history p trail))
    (habsent : handle.point = some p → w.isAlive p → ¬w.Lists p handle.id) :
    w.perform client t below (.unregister handle) = some (.answer w below .done) := by
  cases hfrom with
  | inert => exact World.unregister_gone (by simp [Handle.inert])
  | @joined id interest code hjoined =>
    by_cases halive : w.isAlive p
    · obtain ⟨s, course, stands⟩ := run.course_of_initial hr p
      obtain ⟨point, hp⟩ := course.getElem?_of_registered stands hjoined
      have hphase := World.phase_eq hp
      -- the phase stays as it is
      obtain ⟨hsame, hended⟩ : point.phase.remove id = point.phase ∧
          ((point.phase.remove id).isEnded && !point.phase.isEnded) = false := by
        cases h : point.phase with
        | listening entries =>
          have hlistening := hphase.trans h
          have hnot : id ∉ observerIds entries := fun hmem =>
            habsent rfl halive ⟨entries, hlistening, hmem⟩
          have hheld := course.held_of_absent (stands.phase_eq.trans hlistening) hjoined hnot
          simp [Phase.remove, without_eq_self hnot, hheld, Phase.isEnded]
        | dispatching owner pass => exact absurd (hphase.trans h) (houtside owner pass)
        | ended => simp [Phase.remove, Phase.isEnded]
      rw [World.unregister_at_rest hp halive (hphase ▸ houtside), if_neg (by simp [hended]), hsame,
        World.setPhase_self hp]
    · apply World.unregister_gone
      intro q hq
      cases hq
      exact halive

/-- A handle whose observer is on the list takes this one entry from it, and ends the point if nobody is left
who holds it open. -/
theorem Run.unregister_listed (halive : w.isAlive p) (hphase : w.phase p = .listening entries)
    (hmem : id ∈ observerIds entries) :
    ∃ front interest code back, entries = front ++ .observer id interest code :: back ∧
      id ∉ observerIds (front ++ back) ∧
      ∀ client t below, w.perform client t below (.unregister ⟨some p, id⟩) =
        if heldOpen (front ++ back) then
          some (.answer (w.setPhase p (.listening (front ++ back))) below .done)
        else some (.serve (w.setPhase p (.ended ⟨.tombstone, front ++ back, []⟩)) below p) := by
  obtain ⟨s, course, stands⟩ := run.course_of_initial hr p
  have hsorted : (observerIds entries).Pairwise (· < ·) := by
    have hids : s.ids = observerIds entries := by
      simp only [Standing.ids, stands.phase_eq.trans hphase]
    exact hids ▸ course.ascending.sorted
  obtain ⟨front, interest, code, back, rfl⟩ := exists_of_mem_observerIds hmem
  obtain ⟨hothers, hwithout⟩ := without_of_pairwise hsorted
  refine ⟨front, interest, code, back, rfl, hothers, ?_⟩
  intro client t below
  cases hp : w.points[p]? with
  | none => simp [World.phase, hp] at hphase
  | some point =>
    have hlistening := (World.phase_eq hp).symm.trans hphase
    rw [World.unregister_at_rest hp halive (by simp [hlistening]), hlistening]
    by_cases hheld : heldOpen (front ++ back)
    · simp [Phase.remove, hwithout, hheld, Phase.isEnded]
    · simp [Phase.remove, hwithout, hheld, Phase.isEnded]

/-- If the removal has ended the point, those who stay on the list are given the tombstone by the call, each
once and in the order of the list. -/
theorem Call.tells_those_left {rest : List (Entry K)} {handle : Handle}
    (call : Call client t below (.unregister handle) w during w') (hr' : SinksReturn during)
    (hopen : (w.phase p).isListening) {point : Point M E K} (hp : w.points[p]? = some point)
    (hfirst : w.perform client t below (.unregister handle) =
      some (.serve (w.setPhase p (.ended ⟨.tombstone, rest, []⟩)) below p)) :
    (w'.phase p).isEnded ∧
      (history p during).filter Happening.isTurn <+: rest.map (Entry.given .tombstone .farewell) ∧
      (w'.IsBack t below → w'.thread? t = some ⟨t, .resume .done, below⟩ ∧
        (history p during).filter Happening.isTurn = rest.map (Entry.given .tombstone .farewell)) := by
  have hsound := run.sound (World.initial_sound host) hr
  obtain ⟨s, course, stands⟩ := run.course_of_initial hr p
  have hcoherent := course.coherent Standing.initial_coherent
  have hall := sinksReturn_append.mpr ⟨hr, hr'⟩
  have hserves : ∀ m, w.perform client t below (.unregister handle) = some m →
      m.stack = .serving p :: below := by
    intro m hm
    cases hfirst.symm.trans hm
    rfl
  obtain ⟨v, later, ht, hstep, rfl, hlater⟩ := call.first
  rw [← List.singleton_append, sinksReturn_append] at hr'
  obtain ⟨s', hchange, stands'⟩ := stands.of_step hsound hcoherent ht hstep
  have hv : v.phase p = .ended ⟨.tombstone, rest, []⟩ := by
    obtain ⟨⟨m, hm, stepped⟩, -⟩ := World.step_stepped hsound.orderly ht hstep
    cases hfirst.symm.trans hm
    have hpoints := stepped.points
    simp only [World.phase, hpoints]
    exact World.phase_setPhase hp _
  obtain ⟨entries, hentries⟩ : ∃ entries, w.phase p = .listening entries := by
    cases hphase : w.phase p with
    | listening entries => exact ⟨entries, rfl⟩
    | _ =>
      rw [hphase] at hopen
      cases hopen
  have hlistening := stands.phase_eq.trans hentries
  obtain ⟨hnone, hpending⟩ := hchange.ends_listening hlistening (hcoherent.listening _ hlistening)
    (stands'.phase_eq.trans hv)
  obtain ⟨s'', hcourse, stands''⟩ := hlater.course hr'.2
    ((Run.refl.step ht hstep).sound hsound hr'.1) stands' (hchange.coherent hcoherent)
  have course' : Course .initial (history p trail ++ _) s' := course.step hchange
  obtain ⟨⟨farewell, hended, -⟩, hturns⟩ := course'.farewell hcourse (stands'.phase_eq.trans hv)
  rw [hpending] at hturns
  rw [turns_of_none hnone]
  have hnow : (w'.phase p).isEnded := by rw [← stands''.phase_eq, hended, Phase.isEnded]
  refine ⟨hnow, ⟨_, hturns⟩, ?_⟩
  intro hback
  have hreturned : w'.thread? t = some ⟨t, .resume .done, below⟩ := by
    refine (call.serving hsound (sinksReturn_append.mp hall).2 hserves).resolve_right ?_
    rintro ⟨other, above, hserver⟩
    exact hback.not_above above hserver
  refine ⟨hreturned, ?_⟩
  have hidle := stands''.idle (call.unserved run hall hopen hserves hback)
  have hdone := (course'.trans hcourse).pending_eq_nil (by rw [hended, Phase.isEnded]) hidle
  rwa [hdone, List.map_nil, List.append_nil] at hturns

/-- After a call that was made with the handle while no pass was open, its observer is not on the list. -/
theorem Run.unlisted {before after : List (Moment M E K H)} {m : Moment M E K H}
    {interest : Interest} {code : K} (htrail : trail = before ++ m :: after) (hm : m.TakesBack p id)
    (hjoined : .registered id interest code ∈ history p before) (halive : m.world.isAlive p) :
    ¬w.Lists p id := by
  rintro ⟨entries, hphase, hmem⟩
  obtain ⟨s, s', s'', course, stands, hchange, hlater, stands''⟩ := run.course_through hr htrail p
  cases hfound : m.world.phase p with
  | listening others =>
    have hrid := hm.rid course stands hchange hjoined halive (by rw [hfound, Phase.isListening])
    obtain ⟨entry, hentry, hid⟩ := List.mem_filterMap.mp hmem
    have hlisted : entry ∈ s''.entries := by
      rw [Standing.entries, stands''.phase_eq, hphase]
      exact hentry
    refine (hlater.rid hrid).1.absent entry hlisted ?_
    cases entry <;> simp_all [Entry.id?, Entry.goesBy]
  | dispatching owner pass => exact hm.outside owner pass hfound
  | ended farewell =>
    obtain ⟨hbefore, n, v, ht, hstep, hafter⟩ := run.split htrail
    have hsound := hbefore.sound (World.initial_sound host)
      (sinksReturn_append.mp (htrail ▸ hr)).1
    have hended := (((Run.refl.step ht hstep).trans hafter).ended hsound.orderly
      (by rw [hfound, Phase.isEnded])).2.1
    rw [hphase] at hended
    cases hended

end

/-- A registration is taken back once. Made while no pass of the point is open, an unregister call takes the
handle's entry from the list and leaves the others in their order; the point goes on if one of these holds it
open, else it ends and the call gives them the tombstone one after the other, which runs each of them. If the
observer is not on the list the call does nothing; and that is so for all such calls after the first, unless
the point was gone at the first and has been brought back. The handles meant are all that register calls
answer with. -/
theorem registrations_are_taken_back_once (run : Run client (.initial host) trail w)
    (hr : SinksReturn trail) (hfrom : handle.IsFrom p (history p trail))
    (houtside : ∀ owner pass, w.phase p ≠ .dispatching owner pass) :
    (∀ id entries, handle = ⟨some p, id⟩ → w.isAlive p → w.phase p = .listening entries →
      id ∈ observerIds entries →
      ∃ front interest code back, entries = front ++ .observer id interest code :: back ∧
        id ∉ observerIds (front ++ back) ∧
        (heldOpen (front ++ back) → ∀ t below, w.perform client t below (.unregister handle) =
          some (.answer (w.setPhase p (.listening (front ++ back))) below .done)) ∧
        (¬heldOpen (front ++ back) → ∀ t below,
          w.perform client t below (.unregister handle) =
            some (.serve (w.setPhase p (.ended ⟨.tombstone, front ++ back, []⟩)) below p) ∧
          ∀ during w', Call client t below (.unregister handle) w during w' → SinksReturn during →
            Enacted client p during ∧ (w'.phase p).isEnded ∧
            (history p during).filter (Happening.turns (.observer id)) = [] ∧
            (history p during).filter Happening.isTurn <+:
              (front ++ back).map (Entry.given .tombstone .farewell) ∧
            (w'.IsBack t below → w'.thread? t = some ⟨t, .resume .done, below⟩ ∧
              (history p during).filter Happening.isTurn =
                (front ++ back).map (Entry.given .tombstone .farewell)))) ∧
    ((handle.point = some p → w.isAlive p → ¬w.Lists p handle.id) → ∀ t below,
      w.perform client t below (.unregister handle) = some (.answer w below .done)) ∧
    (∀ before m after, trail = before ++ m :: after →
      m.thread.control = .perform (.unregister handle) → handle.IsFrom p (history p before) →
      (∀ owner pass, m.world.phase p ≠ .dispatching owner pass) →
      (m.world.isAlive p ∨ ¬w.isAlive p) → ∀ t below,
      w.perform client t below (.unregister handle) = some (.answer w below .done)) ∧
    ∀ t below interest code m granted, w.perform client t below (.register p interest code) = some m →
      m.Grants p below granted →
      granted.IsFrom p
        (history p (trail ++ [⟨w, ⟨t, .perform (.register p interest code), below⟩⟩])) := by
  refine ⟨?_, ?_, ?_, ?_⟩
  · rintro id entries rfl halive hphase hmem
    obtain ⟨front, interest, code, back, rfl, hothers, hperforms⟩ :=
      run.unregister_listed hr halive hphase hmem
    refine ⟨front, interest, code, back, rfl, hothers, ?_, ?_⟩
    · intro hheld t below
      rw [hperforms, if_pos hheld]
    · intro hfree t below
      have hfirst := hperforms client t below
      rw [if_neg hfree] at hfirst
      refine ⟨hfirst, ?_⟩
      intro during w' call hr'
      have hopen : (w.phase p).isListening := by rw [hphase, Phase.isListening]
      cases hp : w.points[p]? with
      | none => simp [World.phase, hp] at hphase
      | some point =>
        obtain ⟨hended, htold, hback⟩ := call.tells_those_left run hr hr' hopen hp hfirst
        exact ⟨run.enacted_later call.run hr hr' p, hended, filter_turns_of_told htold hothers, htold,
          hback⟩
  · intro habsent t below
    exact run.unregister_absent hr houtside hfrom habsent
  · intro before m after htrail hcontrol hbefore hrests hgone t below
    refine run.unregister_absent hr houtside hfrom ?_
    intro hpoint halive
    cases hbefore with
    | inert => cases hpoint
    | @joined id interest code hjoined =>
      have hm : m.TakesBack p id := ⟨⟨m.thread.id, m.thread.stack, by rw [← hcontrol]⟩, hrests⟩
      exact run.unlisted hr htrail hm hjoined (hgone.resolve_right (not_not_intro halive))
  · intro t below interest code m granted hm hgrants
    have hcall : history p [⟨w, ⟨t, .perform (.register p interest code), below⟩⟩] =
        w.receives p (.register p interest code) := List.append_nil _
    rw [history_append, hcall]
    exact (World.handle_isFrom hm hgrants).mono (List.subset_append_right _ _)

/-- The first observer is all that holds the point open, and is taken off the list. -/
def withdrawn (fuel : Nat) : List (Moment Unit Unit Manner Notes) × World Unit Unit Manner Notes :=
  World.runCalls (notingClient []) [] [.create "request" .recorder, .register 0 .active .stays,
    .register 0 .passive .declines, .register 0 .passive .calls, .unregister ⟨some 0, 1⟩] fuel

/-- A second call with the handle finds the point as the first has left it. -/
theorem registrations_are_taken_back_once_noting :
    (∃ below during w',
      Call (notingClient []) 0 below (.unregister ⟨some 0, 1⟩) (withdrawn 13).2 during w' ∧
      w'.IsBack 0 below ∧ Enacted (notingClient []) 0 during ∧
      (history 0 during).filter Happening.isTurn =
        [.presented 2 .declines .tombstone .farewell, .presented 3 .calls .tombstone .farewell] ∧
      w'.host = [(.declines, some .tombstone), (.calls, some .tombstone)]) ∧
    ∀ t below, (withdrawn 60).2.perform (notingClient []) t below (.unregister ⟨some 0, 1⟩) =
      some (.answer (withdrawn 60).2 below .done) := by
  have run (fuel : Nat) : Run (notingClient []) (.initial []) (withdrawn fuel).1 (withdrawn fuel).2 :=
    World.run_runCalls _ _ _ fuel
  have hfrom (past : List (Happening Unit Unit Manner)) (h : .registered 1 .active .stays ∈ past) :
      Handle.IsFrom 0 past ⟨some 0, 1⟩ := .joined h
  constructor
  · obtain ⟨hlisted, -⟩ := registrations_are_taken_back_once (run 13) (by decide)
      (hfrom _ (by decide)) nofun
    obtain ⟨front, interest, code, back, hentries, hothers, -, hends⟩ :=
      hlisted 1 [.observer 1 .active .stays, .observer 2 .passive .declines, .observer 3 .passive .calls]
        rfl rfl rfl (by decide)
    cases front with
    | cons first front =>
      obtain ⟨rfl, -⟩ := List.cons.inj hentries
      exact absurd List.mem_cons_self hothers
    | nil =>
      cases hentries
      have call := (withdrawn 13).2.call_trace (t := 0) (notingClient []) 11 rfl (by decide) (by decide)
      obtain ⟨-, htells⟩ := hends (by decide) 0 _
      obtain ⟨henacted, -, -, -, hback⟩ := htells _ _ call (by decide)
      obtain ⟨-, htold⟩ := hback ⟨_, rfl, trivial⟩
      exact ⟨_, _, _, call, ⟨_, rfl, trivial⟩, henacted, htold, by decide⟩
  · have hlength : 13 < (withdrawn 60).1.length := by decide
    have htrail : (withdrawn 60).1 =
        (withdrawn 60).1.take 13 ++ (withdrawn 60).1[13] :: (withdrawn 60).1.drop 14 := by
      rw [List.getElem_cons_drop, List.take_append_drop]
    obtain ⟨-, -, hagain, -⟩ := registrations_are_taken_back_once (run 60) (by decide)
      (hfrom _ (by decide)) nofun
    exact hagain _ _ _ htrail rfl (hfrom _ (by decide)) nofun (.inl rfl)

end Exchange
