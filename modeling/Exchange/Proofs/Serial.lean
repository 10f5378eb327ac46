import Exchange.Proofs.Custody

/-!
Calls of several threads on one point. While a pass is open the point is in the hands of one call, and the
other threads wait; so the passes and the changes of the list come call by call, in one order in which every
thread makes its calls as it does by itself.
-/

namespace Exchange
set_option autoImplicit false

variable {M E K H : Type}

/-! ## Serial executions -/

/-- What happens to the list of a point or in its passes. -/
def Happening.isStroke : Happening M E K → Bool
  | .reported _ _ | .emitted _ _ | .presented _ _ _ .call | .notified _ _ .call => false
  | _ => true

/-- What a call is for a point that stands so. -/
def Standing.receives (s : Standing M E K) (op : Op M E K) : List (Happening M E K) :=
  Point.receives
    { request := "", sink := .recorder, phase := s.phase, nextId := s.nextId,
      nextTicket := s.nextTicket } op

/-- A call of thread `t` carried out while nobody else has to do with the point: it takes effect, and if it
opens a pass then all goes on in the pass and in those that follow, up to the end of the last. On a point
that has ended there is neither a list nor a pass any more. -/
inductive Alone (t : Nat) (op : Op M E K) (s : Standing M E K) :
    List (Happening M E K) → Standing M E K → Prop
  | begins {s'} : s.phase.isListening → Change s (s.receives op) s' →
      (∀ owner pass, s'.phase = .dispatching owner pass → owner = t) → Alone t op s (s.receives op) s'
  | goesOn {log s' pass happenings s''} : Alone t op s log s' → s'.phase = .dispatching t pass →
      Change s' happenings s'' → Alone t op s (log ++ happenings.filter Happening.isStroke) s''
  | late : s.phase.isEnded → Alone t op s [] s

/-- An execution of calls one after the other, with the threads that make them and what happens. -/
inductive Serial : List (Nat × Op M E K) → List (Nat × Happening M E K) → Standing M E K → Prop
  | nil : Serial [] [] .initial
  | snoc {calls log s t op happenings s'} : Serial calls log s → Alone t op s happenings s' →
      Serial (calls ++ [(t, op)]) (log ++ happenings.map (t, ·)) s'

variable {client : Client M E K H} {w w' : World M E K H} {t n p owner : Nat}
variable {thread : Thread M E K H} {control : Control M E K H} {stack : List (Frame M E K H)}
variable {m : Move M E K H} {op : Op M E K} {pass : Pass M E K} {point : Point M E K}
variable {s s' : Standing M E K} {happenings : List (Happening M E K)}
variable {trail : List (Moment M E K H)} {host : H}

theorem Change.owner_eq {pass' : Pass M E K} (h : Change s happenings s')
    (hs : s.phase = .dispatching t pass) (hs' : s'.phase = .dispatching owner pass') : owner = t := by
  cases h with
  | rests =>
    cases hs.symm.trans hs'
    rfl
  | aside =>
    cases hs.symm.trans hs'
    rfl
  | goesOn _ hcommit =>
    cases hs
    cases hs'
    exact (Pass.commit_dispatching hcommit).2.2.1.symm ▸ rfl
  | _ => cases hs <;> cases hs' <;> rfl

theorem Alone.owner_eq {log : List (Happening M E K)} (h : Alone t op s log s')
    (hs' : s'.phase = .dispatching owner pass) : owner = t := by
  cases h with
  | begins _ _ howner => exact howner owner pass hs'
  | goesOn _ hphase hchange => exact hchange.owner_eq hphase hs'
  | late hended =>
    rw [hs'] at hended
    cases hended

/-- The last call goes on as long as its pass is open. -/
theorem Serial.extend {calls : List (Nat × Op M E K)} {log : List (Nat × Happening M E K)}
    (h : Serial calls log s) (hs : s.phase = .dispatching t pass) (hchange : Change s happenings s') :
    Serial calls (log ++ (happenings.filter Happening.isStroke).map (t, ·)) s' := by
  cases h with
  | nil => cases hs
  | snoc before alone =>
    obtain rfl := alone.owner_eq hs
    rw [List.append_assoc, ← List.map_append]
    exact .snoc before (alone.goesOn hs hchange)

/-! ## The calls on a point -/

/-- Whether a call gets to a point that is there; a handle may have outlived it. -/
def World.reaches (w : World M E K H) (p : Nat) : Op M E K → Bool
  | .unregister handle => handle.point = some p && w.points[p]?.isSome && w.isAlive p
  | op => op.waitsFor? = some p && w.points[p]?.isSome

/-- The call on the point that a thread makes at that moment, unless it is made from inside a pass. -/
def Moment.outermost? (p : Nat) (m : Moment M E K H) : Option (Op M E K) :=
  match m.thread.control with
  | .perform op =>
    if m.world.reaches p op ∧ (m.world.phase p).access m.thread.id = .free then some op else none
  | _ => none

/-- The calls that a thread makes on a point, in its own order. -/
def callsOf (p t : Nat) (trail : List (Moment M E K H)) : List (Op M E K) :=
  (trail.filter fun m => m.thread.id = t).filterMap (Moment.outermost? p)

/-- The calls that all threads make on a point, in the order in which they get hold of it. -/
def outermost (p : Nat) (trail : List (Moment M E K H)) : List (Nat × Op M E K) :=
  trail.filterMap fun m => (m.outermost? p).map (m.thread.id, ·)

/-- What happens at that moment to the list of a point or in its passes, and by which thread. -/
def Moment.strokes (p : Nat) (m : Moment M E K H) : List (Nat × Happening M E K) :=
  if (m.world.phase p).isEnded then []
  else ((m.happenings p).filter Happening.isStroke).map (m.thread.id, ·)

def strokes (p : Nat) (trail : List (Moment M E K H)) : List (Nat × Happening M E K) :=
  trail.flatMap (Moment.strokes p)

@[simp] theorem outermost_append (first second : List (Moment M E K H)) :
    outermost p (first ++ second) = outermost p first ++ outermost p second :=
  List.filterMap_append

@[simp] theorem strokes_append (first second : List (Moment M E K H)) :
    strokes p (first ++ second) = strokes p first ++ strokes p second := List.flatMap_append

theorem outermost_singleton (m : Moment M E K H) :
    outermost p [m] = ((m.outermost? p).map (m.thread.id, ·)).toList := by
  cases h : m.outermost? p <;> simp [outermost, h]

theorem strokes_singleton (m : Moment M E K H) : strokes p [m] = m.strokes p := by
  simp [strokes]

theorem outermost_of_thread (trail : List (Moment M E K H)) :
    ((outermost p trail).filter fun call => call.1 = t).map (·.2) = callsOf p t trail := by
  induction trail with
  | nil => rfl
  | cons m trail ih =>
    have hcons : outermost p (m :: trail) = outermost p [m] ++ outermost p trail :=
      outermost_append [m] trail
    rw [hcons, List.filter_append, List.map_append, ih, outermost_singleton]
    by_cases hid : m.thread.id = t <;> cases hcall : m.outermost? p <;> simp [callsOf, hid, hcall]

namespace World

theorem receives_of_reaches (hp : w.points[p]? = some point) (h : w.reaches p op) :
    w.receives p op = point.receives op := by
  cases op <;> simp_all [reaches, receives, Op.waitsFor?]

theorem receives_standing {v : Service} (hp : w.points[p]? = some point) (op : Op M E K) :
    (w.standing p v).receives op = point.receives op := by
  rw [standing_of_getElem? hp]
  cases op <;> rfl

theorem Stands.receives_eq (h : w.Stands p s) (hreach : w.reaches p op) :
    w.receives p op = s.receives op := by
  have hsome : (w.points[p]?).isSome := by cases op <;> simp_all [reaches]
  obtain ⟨point, hp⟩ := Option.isSome_iff_exists.mp hsome
  rw [receives_of_reaches hp hreach, h.eq, receives_standing hp]

/-- A call that gets to no point does nothing there. -/
theorem perform_astray (hw : op.waitsFor? = some p) (hreach : ¬w.reaches p op)
    (h : w.perform client t stack op = some m) :
    m.world.standing p .idle = w.standing p .idle ∧ w.receives p op = [] := by
  cases hp : w.points[p]? with
  | none =>
    have hanswer : m = .answer w stack .done := by
      cases op <;> simp_all [Op.waitsFor?, perform]
    exact ⟨by rw [hanswer]; rfl, receives_absent hw hp⟩
  | some point =>
    cases op with
    | unregister handle =>
      have hdead : w.isAlive p = false := by simp_all [reaches, Op.waitsFor?]
      obtain rfl : m = .answer w stack .done := by
        simp_all [Op.waitsFor?, perform, unregister]
      exact ⟨rfl, by simp [receives, hp, hdead]⟩
    | _ => simp_all [reaches, Op.waitsFor?]

end World

/-! ## What the others do -/

namespace Happening

theorem isStroke_of_isAside {happening : Happening M E K} (h : happening.IsAside) :
    happening.isStroke = false := by
  rcases h.eq with ⟨_, _, rfl⟩ | ⟨_, _, rfl⟩ | ⟨_, _, _, rfl⟩ | ⟨_, _, rfl⟩ <;> rfl

theorem filter_isStroke (h : ∀ happening ∈ happenings, happening.IsAside) :
    happenings.filter isStroke = [] :=
  List.filter_eq_nil_iff.mpr fun happening hmem => by simp [isStroke_of_isAside (h happening hmem)]

end Happening

theorem Point.receives_strokes (point : Point M E K) (op : Op M E K) :
    (point.receives op).filter Happening.isStroke = point.receives op := by
  apply List.filter_eq_self.mpr
  cases op <;> simp only [receives] <;> repeat' split
  all_goals simp [Happening.isStroke]

theorem World.receives_aside (hw : op.waitsFor? ≠ some p) :
    ∀ happening ∈ w.receives p op, happening.IsAside := by
  cases op with
  | emit q kind label reason =>
    simp only [receives]
    split <;> simp [Happening.IsAside]
  | report sink kind label reason =>
    simp only [receives]
    split <;> simp [Happening.IsAside]
  | unregister handle =>
    simp only [Op.waitsFor?] at hw
    simp only [receives, hw, false_and, if_false]
    split <;> simp
  | _ =>
    simp only [receives, hw, if_false]
    split <;> simp

/-- Nothing happens to the list or in a pass by a thread that has no frame there and does not call. -/
theorem Moment.aside (hclear : Clear p thread.stack)
    (hcall : ∀ op, thread.control = .perform op → op.waitsFor? ≠ some p) :
    ∀ happening ∈ Moment.happenings p ⟨w, thread⟩, happening.IsAside := by
  obtain ⟨n, control, stack⟩ := thread
  have top {q : Nat} {rest : List (Frame M E K H)} (h : stack = .serving q :: rest ∨
      stack = .delivering q :: rest) : q ≠ p := by
    rcases h with rfl | rfl <;> simpa [Frame.attends] using hclear _ List.mem_cons_self
  cases control with
  | perform op => exact World.receives_aside (hcall op rfl)
  | act act =>
    cases act with
    | report sink kind label reason =>
      simp only [Moment.happenings, World.does]
      split <;> simp [Happening.IsAside]
    | present code event =>
      cases stack with
      | nil => simp [Moment.happenings, World.does]
      | cons frame rest =>
        cases frame with
        | delivering q =>
          have hne := top (.inr rfl)
          simp only [Moment.happenings, World.does, List.head?_cons, hne, if_false]
          split <;> simp
        | acts q todo answer =>
          simp only [Moment.happenings, World.does, List.head?_cons]
          split <;> simp [Happening.IsAside]
        | _ => simp [Moment.happenings, World.does]
    | notify ticket notice =>
      cases stack with
      | nil => simp [Moment.happenings, World.does]
      | cons frame rest =>
        cases frame with
        | delivering q => simp [Moment.happenings, World.does, top (.inr rfl)]
        | acts q todo answer =>
          simp only [Moment.happenings, World.does, List.head?_cons]
          split <;> simp [Happening.IsAside]
        | _ => simp [Moment.happenings, World.does]
    | _ => simp [Moment.happenings, World.does]
  | resume reply =>
    cases stack with
    | nil => simp [Moment.happenings]
    | cons frame rest =>
      cases frame with
      | serving q => simp [Moment.happenings, World.returns, top (.inl rfl)]
      | delivering q => simp [Moment.happenings, World.returns, top (.inr rfl)]
      | _ => simp [Moment.happenings, World.returns]
  | unwind payload =>
    cases stack with
    | nil => simp [Moment.happenings]
    | cons frame rest =>
      cases frame with
      | delivering q => simp [Moment.happenings, World.returns, top (.inr rfl)]
      | _ => simp [Moment.happenings]
  | _ => simp [Moment.happenings]

namespace World

theorem Stands.clear_of_ne_owner (h : w.Stands p s) (hs : s.Coherent)
    (hphase : w.phase p = .dispatching owner pass) (hmem : thread ∈ w.threads)
    (hne : thread.id ≠ owner) : Clear p thread.stack := by
  intro frame hframe
  by_contra hattends
  exact hne (h.eq_owner hs hphase hmem hframe (by simpa using hattends))

theorem Stands.isServed (h : w.Stands p s) (hs : s.Coherent)
    (hphase : w.phase p = .dispatching owner pass) : w.IsServed p := by
  by_contra hnot
  exact hs.dispatching owner pass (h.phase_eq.trans hphase) (h.idle hnot)

/-- Calls of other threads wait until the pass is over, and those that follow it. -/
theorem Stands.perform_waits (h : w.Stands p s) (hs : s.Coherent)
    (hphase : w.phase p = .dispatching owner pass) (hne : t ≠ owner) (hw : op.waitsFor? = some p) :
    w.perform client t stack op = none :=
  perform_busy hphase hne (isAlive_of_isServed (h.isServed hs hphase)) hw

theorem Stands.visit_aside (h : w.Stands p s) (hs : s.Coherent)
    (hphase : w.phase p = .dispatching owner pass) (hmem : thread ∈ w.threads)
    (hne : thread.id ≠ owner)
    (hm : w.move client thread.id thread.stack thread.control = some m) :
    ∀ happening ∈ Moment.happenings p ⟨w, thread⟩, happening.IsAside := by
  refine Moment.aside (h.clear_of_ne_owner hs hphase hmem hne) ?_
  intro op hop hw
  rw [hop] at hm
  cases (h.perform_waits hs hphase hne hw).symm.trans hm

theorem outermost?_of_dispatching (hphase : w.phase p = .dispatching owner pass) :
    Moment.outermost? p ⟨w, thread⟩ = none := by
  have hfree : (w.phase p).access thread.id ≠ .free := hphase ▸ access_ne_free owner pass
  unfold Moment.outermost?
  split
  · exact if_neg fun h => hfree h.2
  · rfl

/-- Whoever makes no call on an open point leaves it as it is. -/
theorem Stands.of_listening (h : w.Stands p s) (hs : s.Coherent) (hopen : (w.phase p).isListening)
    (hmem : thread ∈ w.threads) (hm : w.move client thread.id thread.stack thread.control = some m)
    (hcall : ∀ op, thread.control = .perform op → ¬w.reaches p op) :
    m.world.standing p .idle = w.standing p .idle ∧
      ∀ happening ∈ Moment.happenings p ⟨w, thread⟩, happening.IsAside := by
  have hclear := h.clear_of_listening hs hopen hmem
  by_cases hwaits : ∃ op, thread.control = .perform op ∧ op.waitsFor? = some p
  · obtain ⟨op, hop, hwaits⟩ := hwaits
    obtain ⟨n, control, stack⟩ := thread
    obtain rfl : control = .perform op := hop
    obtain ⟨hsame, hnone⟩ := perform_astray hwaits (hcall op rfl) hm
    refine ⟨hsame, ?_⟩
    simp only [Moment.happenings, hnone]
    simp
  · have hpast : ∀ op, thread.control = .perform op → op.waitsFor? ≠ some p :=
      fun op hop hw => hwaits ⟨op, hop, hw⟩
    refine ⟨standing_of_apart hm hpast ?_, Moment.aside hclear hpast⟩
    intro _ frame hframe
    exact hclear frame (List.mem_of_mem_head? hframe)

/-- One step more, of whatever thread, and what has happened is a serial execution still. -/
theorem step_serial {calls : List (Nat × Op M E K)} {log : List (Nat × Happening M E K)}
    (h : Serial calls log s) (hw : w.Sound) (hs : s.Coherent)
    (hstands : w.Stands p s ∨ s.phase.isEnded ∧ (w.phase p).isEnded)
    (hn : w.thread? n = some thread) (hstep : w.step client n = some w') :
    ∃ s', Serial (calls ++ outermost p [⟨w, thread⟩]) (log ++ strokes p [⟨w, thread⟩]) s' ∧
      s'.Coherent ∧ (w'.Stands p s' ∨ s'.phase.isEnded ∧ (w'.phase p).isEnded) := by
  obtain ⟨⟨m, hm, stepped⟩, -⟩ := step_stepped hw.orderly hn hstep
  have hafter : w'.phase p = m.world.phase p := by simp only [World.phase, stepped.points]
  have hmem := mem_of_thread? hn
  rw [← id_of_thread? hn] at hm
  rw [outermost_singleton, strokes_singleton]
  by_cases hended : (w.phase p).isEnded
  · have hended' : s.phase.isEnded := hstands.elim (fun h => h.phase_eq ▸ hended) (·.1)
    have hnone : Moment.strokes p ⟨w, thread⟩ = [] := if_pos hended
    have hlater : (w'.phase p).isEnded := hafter ▸ (move_follows hm).ended hended
    rw [hnone, List.append_nil]
    refine ⟨s, ?_, hs, .inr ⟨hended', hlater⟩⟩
    cases hcall : Moment.outermost? p ⟨w, thread⟩ with
    | none => simpa using h
    | some op => simpa using h.snoc (t := thread.id) (.late hended')
  replace hstands := hstands.resolve_right fun h => hended h.2
  obtain ⟨s', hchange, hstands'⟩ := hstands.of_step hw hs hn hstep
  have hs' := hchange.coherent hs
  have hstrokes : Moment.strokes p ⟨w, thread⟩ =
      ((Moment.happenings p ⟨w, thread⟩).filter Happening.isStroke).map (thread.id, ·) :=
    if_neg hended
  rw [hstrokes]
  cases hphase : w.phase p with
  | ended => simp [hphase, Phase.isEnded] at hended
  | dispatching owner pass =>
    have hextended := h.extend (hstands.phase_eq.trans hphase) hchange
    rw [outermost?_of_dispatching hphase]
    refine ⟨s', ?_, hs', .inl hstands'⟩
    by_cases hne : thread.id = owner
    · simpa [hne] using hextended
    · have haside := Happening.filter_isStroke (hstands.visit_aside hs hphase hmem hne hm)
      rw [haside] at hextended ⊢
      simpa using hextended
  | listening entries =>
    have hopen : (w.phase p).isListening := by simp [hphase, Phase.isListening]
    have hidle := hs.listening entries (hstands.phase_eq.trans hphase)
    by_cases hcall : ∃ op, thread.control = .perform op ∧ w.reaches p op
    · obtain ⟨op, hop, hreach⟩ := hcall
      have hcalls : Moment.outermost? p ⟨w, thread⟩ = some op := by
        simp [Moment.outermost?, hop, hreach, hphase, Phase.access]
      have hreceives : Moment.happenings p ⟨w, thread⟩ = s.receives op := by
        rw [← hstands.receives_eq hreach]
        simp only [Moment.happenings, hop]
      rw [hcalls, hreceives, Standing.receives, Point.receives_strokes]
      refine ⟨s', h.snoc (.begins ?_ (hreceives ▸ hchange) ?_), hs', .inl hstands'⟩
      · exact hstands.phase_eq ▸ hopen
      · intro owner pass hpass
        have hopens := hstands.opens hs hmem hm (hafter ▸ hstands'.phase_eq ▸ hpass)
        rcases hopens with ⟨pass', hbefore⟩ | ⟨howner, -⟩
        · cases hphase.symm.trans hbefore
        · exact howner
    · have hnone : Moment.outermost? p ⟨w, thread⟩ = none := by
        unfold Moment.outermost?
        split
        · rename_i op hop
          exact if_neg fun h => hcall ⟨op, hop, h.1⟩
        · rfl
      obtain ⟨hsame, haside⟩ := hstands.of_listening hs hopen hmem hm fun op hop hreach =>
        hcall ⟨op, hop, hreach⟩
      rw [hnone, Happening.filter_isStroke haside]
      have hlistening : w'.phase p = .listening entries := by
        rw [hafter, ← hphase]
        exact congrArg Standing.phase hsame
      have hidle' := hs'.listening entries (hstands'.phase_eq.trans hlistening)
      have hunchanged : s' = s := by
        rw [hstands'.eq, hstands.eq, hidle, hidle', ← hsame]
        exact standing_congr stepped.points
      exact ⟨s, by simpa using h, hs, .inl (hunchanged ▸ hstands')⟩

end World
/-! ## Runs -/

theorem Run.serial (run : Run client (.initial host) trail w) (hr : SinksReturn trail) (p : Nat) :
    ∃ s, Serial (outermost p trail) (strokes p trail) s ∧ s.Coherent ∧
      (w.Stands p s ∨ s.phase.isEnded ∧ (w.phase p).isEnded) := by
  induction run with
  | refl => exact ⟨.initial, .nil, Standing.initial_coherent, .inl (World.initial_stands host)⟩
  | step run hn hstep ih =>
    obtain ⟨hr, -⟩ := sinksReturn_append.mp hr
    obtain ⟨s, hserial, hs, hstands⟩ := ih hr
    rw [outermost_append, strokes_append]
    exact World.step_serial hserial (run.sound (World.initial_sound host) hr) hs hstands hn hstep
  | between run hb ih =>
    obtain ⟨s, hserial, hs, hstands⟩ := ih hr
    have ho := (run.sound (World.initial_sound host) hr).orderly
    obtain ⟨hinterlude, -⟩ := World.between_interlude ho hb
    refine ⟨s, hserial, hs, hstands.imp (·.of_between ho hb) ?_⟩
    rintro ⟨hended, hended'⟩
    exact ⟨hended, by simpa only [World.phase, hinterlude.1] using hended'⟩

/-- Calls of several threads on one point do not get between one another. There is never more than one call
that serves the point; while its pass is open, up to the end of the last that follows it, it is the call of
the thread that has opened it, calls of other threads wait, and whatever else these do leaves the point as it
is; and the passes with their events and lists, and all that is done to the list, come in the order of an
execution of the calls one after the other, in which every thread makes its own calls in its own order. -/
theorem calls_come_one_by_one (run : Run client (.initial host) trail w) (hr : SinksReturn trail)
    (p : Nat) :
    (w.threads.flatMap (·.stack)).countP (Frame.serves p) ≤ 1 ∧
    (∀ owner pass, w.phase p = .dispatching owner pass →
      (∃ before world event below since,
        trail = before ++ ⟨world, ⟨owner, .perform (.push p event), below⟩⟩ :: since ∧
          Custody p owner below world event since w) ∧
      (∀ t op stack, t ≠ owner → op.waitsFor? = some p → w.perform client t stack op = none) ∧
      ∀ n thread w', w.thread? n = some thread → w.step client n = some w' → n ≠ owner →
        w'.phase p = w.phase p ∧
          ∀ happening ∈ Moment.happenings p ⟨w, thread⟩, happening.IsAside) ∧
    (∃ s, Serial (outermost p trail) (strokes p trail) s ∧
      (s.phase = w.phase p ∨ s.phase.isEnded ∧ (w.phase p).isEnded)) ∧
    ∀ t, ((outermost p trail).filter fun call => call.1 = t).map (·.2) = callsOf p t trail := by
  have hsound := run.sound (World.initial_sound host) hr
  obtain ⟨s, course, stands⟩ := run.course_of_initial hr p
  have hs := course.coherent Standing.initial_coherent
  refine ⟨stands.one_call hsound.orderly, ?_, ?_, fun t => outermost_of_thread trail⟩
  · intro owner pass hphase
    refine ⟨run.custody hr hphase, ?_, ?_⟩
    · intro t op stack hne hwaits
      exact stands.perform_waits hs hphase hne hwaits
    · intro n thread w' hn hstep hne
      obtain ⟨⟨m, hm, stepped⟩, -⟩ := World.step_stepped hsound.orderly hn hstep
      have hmem := World.mem_of_thread? hn
      rw [← World.id_of_thread? hn] at hm hne
      refine ⟨?_, stands.visit_aside hs hphase hmem hne hm⟩
      rw [← stands.visit hs hphase hmem hne hm]
      simp only [World.phase, stepped.points]
  · obtain ⟨s, hserial, -, hstands⟩ := run.serial hr p
    exact ⟨s, hserial, hstands.imp_left (·.phase_eq)⟩

/-- A client whose observers, when an event is not the last one, have another thread push the last. -/
def hurryingClient : Client Unit Unit Bool Unit :=
  { plainClient with
    observer := fun stays event =>
      if event.isLast then .ret stays else .call (.fork true false) fun _ => .ret stays
    routine := fun _ => .call (.push 0 (.ofResponse () true)) fun _ => .ret () }

/-- The second thread comes forward in the middle of the first thread's pass, and pushes after it. -/
theorem calls_come_one_by_one_hurrying :
    let calls := World.runCalls hurryingClient () [.create "request" .recorder,
      .register 0 .active true, .push 0 (.ofResponse () false)] 60
    ∃ s, Serial [(0, .register 0 .active true), (0, .push 0 (.ofResponse () false)),
      (1, .push 0 (.ofResponse () true))] (strokes 0 calls.1) s ∧ s.phase.isEnded := by
  intro calls
  have run : Run hurryingClient (.initial ()) calls.1 calls.2 :=
    World.run_runCalls hurryingClient () _ 60
  obtain ⟨-, -, ⟨s, hserial, hphase⟩, -⟩ := calls_come_one_by_one run (by decide) 0
  refine ⟨s, hserial, hphase.elim ?_ (·.1)⟩
  intro h
  rw [h]
  rfl

end Exchange
