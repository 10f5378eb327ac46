import Exchange.Proofs.Realm
import Exchange.Proofs.Sparing

/-!
Points do not influence each other. When the code that is handed to either of two points keeps to the realm
of its point, then each of them does in a session of calls on both what it does when the calls on the other
are left out.
-/

namespace Exchange
set_option autoImplicit false

variable {M E K H V W : Type}

/-! ## Sessions -/

/-- Steps of the main thread, one after the other. -/
inductive Solo (client : Client M E K H) :
    World M E K H → List (Moment M E K H) → World M E K H → Prop
  | refl (w : World M E K H) : Solo client w [] w
  | step {w v u : World M E K H} {thread : Thread M E K H} {trail : List (Moment M E K H)} :
      w.thread? World.mainThread = some thread → w.step client World.mainThread = some v →
      Solo client v trail u → Solo client w (⟨w, thread⟩ :: trail) u

def Code.just (op : Op M E K) : Code M E K H (Reply M K) :=
  (Code.call op fun _ => .ret ()).bind fun _ => .ret .done

/-- The client makes that call on the main thread. -/
def World.calling (op : Op M E K) (w : World M E K H) : World M E K H :=
  w.assign (.eval (.just op)) []

/-- An outermost call that came back, with the steps that it took. -/
structure Visit (M E K H : Type) where
  op : Op M E K
  trail : List (Moment M E K H)
  after : World M E K H

/-- Outermost calls, one after the other. -/
inductive Session (client : Client M E K H) (start : World M E K H) :
    List (Visit M E K H) → World M E K H → Prop
  | nil : Session client start [] start
  | call {visits : List (Visit M E K H)} {w v : World M E K H} {trail : List (Moment M E K H)}
      (op : Op M E K) : Session client start visits w → Solo client (w.calling op) trail v → v.isIdle →
      Session client start (visits ++ [⟨op, trail, v⟩]) v

/-- The point on which a call is made. -/
def Op.point? : Op M E K → Option Nat
  | .release p | .inspect p | .register p _ _ | .atEnd p _ | .push p _ | .poke p | .answerPoke p _
  | .emit p _ _ _ | .bind p _ _ _ _ => some p
  | .unregister handle => handle.point
  | _ => none

def Visit.isOn (p : Nat) (visit : Visit M E K H) : Bool := visit.op.point? = some p

/-- A call gives its answer or passes on a panic. -/
def Moment.answer? (m : Moment M E K H) : Option (Except Payload (Reply M K)) :=
  if m.thread.stack.head?.any Frame.isCaller then m.thread.control.result? else none

/-- The answers to calls, with that to the outermost call as the last. -/
def answers (trail : List (Moment M E K H)) : List (Except Payload (Reply M K)) :=
  trail.filterMap Moment.answer?

/-- What there is to see of a point in a call, but for the numbers of diagnostics. -/
structure Visit.Account (M E K : Type) where
  op : Op M E K
  answers : List (Except Payload (Reply M K))
  history : List (Happening M E K)
  diagnoses : List (Sink K × Kind × Option String × Option String)
  after : Option (Point M E K)

theorem diagnoses_unnumbered (trail : List (Moment M E K H)) :
    (diagnoses trail).map unnumbered = trail.filterMap fun m => m.diagnosis?.map unnumbered :=
  List.map_filterMap

def Visit.account (p : Nat) (visit : Visit M E K H) : Visit.Account M E K :=
  ⟨visit.op, answers visit.trail, history p visit.trail, (diagnoses visit.trail).map unnumbered,
    visit.after.points[p]?⟩

/-- The main thread is the only one, and is in the middle of nothing. -/
def World.IsAlone (w : World M E K H) : Prop :=
  ∃ control, w.threads = [⟨mainThread, control, []⟩]

section
variable {client : Client M E K H} {start w w' v v' u u' : World M E K H} {n p : Nat}
variable {trail trail' : List (Moment M E K H)} {visits visits' : List (Visit M E K H)}
variable {control : Control M E K H} {stack : List (Frame M E K H)} {op : Op M E K}

theorem Solo.run (solo : Solo client w trail v) : Run client w trail v := by
  induction solo with
  | refl => exact .refl
  | step ht hs _ ih => exact (Run.refl.step ht hs).trans ih

/-- A session is a run. -/
theorem Session.run (session : Session client start visits w) (hstart : start.isIdle) :
    Run client start (visits.flatMap (·.trail)) w ∧ w.isIdle := by
  induction session with
  | nil => exact ⟨.refl, hstart⟩
  | call op _ solo hidle ih =>
    obtain ⟨run, hbefore⟩ := ih
    rw [List.flatMap_append, List.flatMap_singleton]
    exact ⟨(run.between (.code _ hbefore)).trans solo.run, hidle⟩

/-! ### One way only -/

theorem World.step_of_isIdle (h : w.isIdle) : w.step client mainThread = none := by
  cases hs : w.step client mainThread with
  | none => rfl
  | some v =>
    obtain ⟨thread, ht, hm⟩ := Option.bind_eq_some_iff.mp hs
    obtain ⟨m, hm, -⟩ := Option.bind_eq_some_iff.mp hm
    have hthread : w.thread? mainThread = some thread := ht
    have hover : thread.isOver := by simpa [isIdle, hthread] using h
    obtain ⟨id, control, stack⟩ := thread
    cases stack <;> cases control <;> simp_all [Thread.isOver, move]

theorem Solo.unique (solo : Solo client w trail v) (hv : v.isIdle) (solo' : Solo client w trail' v')
    (hv' : v'.isIdle) : trail = trail' ∧ v = v' := by
  induction solo generalizing trail' with
  | refl w =>
    cases solo' with
    | refl => exact ⟨rfl, rfl⟩
    | step _ hs => cases (World.step_of_isIdle hv).symm.trans hs
  | step ht hs _ ih =>
    cases solo' with
    | refl => cases (World.step_of_isIdle hv').symm.trans hs
    | step ht' hs' rest =>
      cases ht.symm.trans ht'
      cases hs.symm.trans hs'
      obtain ⟨rfl, rfl⟩ := ih hv rest
      exact ⟨rfl, rfl⟩

/-- The same calls have the same course. -/
theorem Session.unique (session : Session client start visits w)
    (session' : Session client start visits' w') (h : visits.map (·.op) = visits'.map (·.op)) :
    visits = visits' ∧ w = w' := by
  induction session generalizing visits' w' with
  | nil =>
    cases session' with
    | nil => exact ⟨rfl, rfl⟩
    | call => simp at h
  | call op _ solo hidle ih =>
    cases session' with
    | nil => simp at h
    | call op' before solo' hidle' =>
      rw [List.map_append, List.map_append] at h
      obtain ⟨hops, hop⟩ := List.append_inj' h rfl
      obtain rfl : op = op' := by simpa using hop
      obtain ⟨rfl, rfl⟩ := ih before hops
      obtain ⟨rfl, rfl⟩ := solo.unique hidle solo' hidle'
      exact ⟨rfl, rfl⟩

end

/-! ## Calls within a realm -/

section
variable {client : Client M E K H} {r : Realm K H V W} {w w' v v' : World M E K H} {n : Nat}
variable {control control' : Control M E K H} {stack stack' : List (Frame M E K H)}
variable {trail : List (Moment M E K H)} {op : Op M E K} {frame frame' : Frame M E K H}

namespace Realm

/-- Two exchanges are in the middle of the same call within the realm. -/
structure Midway (r : Realm K H V W) (w w' : World M E K H) (control control' : Control M E K H)
    (stack stack' : List (Frame M E K H)) : Prop where
  worlds : r.Worlds w w'
  threads : w.threads = [⟨World.mainThread, control, stack⟩]
  threads' : w'.threads = [⟨World.mainThread, control', stack'⟩]
  controls : r.Controls control control'
  frames : List.Forall₂ r.Frames stack stack'

theorem Frames.holdsPoint (h : r.Frames frame frame') (p : Nat) :
    frame.holdsPoint p = frame'.holdsPoint p := by
  cases h <;> rfl

theorem Frames.isCaller (h : r.Frames frame frame') : frame.isCaller = frame'.isCaller := by
  cases h <;> rfl

theorem Controls.holdsPoint (h : r.Controls control control') (p : Nat) :
    control.holdsPoint p = control'.holdsPoint p := by
  cases h <;> rfl

theorem Controls.result (h : r.Controls control control') : control.result? = control'.result? := by
  cases h <;> rfl

theorem any_holdsPoint (h : List.Forall₂ r.Frames stack stack') (p : Nat) :
    stack.any (Frame.holdsPoint p) = stack'.any (Frame.holdsPoint p) := by
  induction h with
  | nil => rfl
  | cons hframe _ ih => rw [List.any_cons, List.any_cons, ih, hframe.holdsPoint]

namespace Midway
variable (h : r.Midway w w' control control' stack stack')
include h

theorem isAlive : w.isAlive r.point = w'.isAlive r.point := by
  obtain ⟨point, hp, hp', -⟩ := h.worlds.point
  simp only [World.isAlive, hp, hp', h.worlds.tasks, h.threads, h.threads', List.any_cons, List.any_nil,
    Thread.holdsPoint, h.controls.holdsPoint, any_holdsPoint h.frames]

theorem phase : w.phase r.point = w'.phase r.point := by
  obtain ⟨point, hp, hp', -⟩ := h.worlds.point
  simp only [World.phase, hp, hp']

theorem happenings : Moment.happenings r.point ⟨w, ⟨n, control, stack⟩⟩ =
    Moment.happenings r.point ⟨w', ⟨n, control', stack'⟩⟩ := by
  have hphase := h.phase
  have hstacks := h.frames
  cases h.controls with
  | eval => rfl
  | deliver => rfl
  | perform hop =>
    obtain ⟨point, hp, hp', -⟩ := h.worlds.point
    cases hop <;> simp only [Moment.happenings, World.receives, hp, hp', h.isAlive]
  | act hact =>
    cases hact with
    | report => rfl
    | present event hcode =>
      cases hstacks with
      | nil => rfl
      | cons hframe =>
        cases hframe <;> simp only [Moment.happenings, World.does, List.head?_cons, hphase]
    | notify ticket hcode =>
      cases hstacks with
      | nil => rfl
      | cons hframe =>
        cases hframe <;> simp only [Moment.happenings, World.does, List.head?_cons, hphase]
    | run => rfl
  | resume hreply =>
    cases hstacks with
    | nil => rfl
    | cons hframe => cases hframe <;> simp only [Moment.happenings, World.returns, hphase]
  | unwind payload =>
    cases hstacks with
    | nil => rfl
    | cons hframe => cases hframe <;> simp only [Moment.happenings, World.returns, hphase]

theorem answer : Moment.answer? ⟨w, ⟨n, control, stack⟩⟩ =
    Moment.answer? ⟨w', ⟨n, control', stack'⟩⟩ := by
  have htop : stack.head?.any Frame.isCaller = stack'.head?.any Frame.isCaller := by
    cases h.frames with
    | nil => rfl
    | cons hframe => exact hframe.isCaller
  simp only [Moment.answer?, htop, h.controls.result]

theorem diagnosis : (Moment.diagnosis? ⟨w, ⟨n, control, stack⟩⟩).map unnumbered =
    (Moment.diagnosis? ⟨w', ⟨n, control', stack'⟩⟩).map unnumbered := by
  cases h.controls with
  | act hact => cases hact <;> rfl
  | _ => rfl

theorem isOver : Thread.isOver ⟨n, control, stack⟩ = Thread.isOver ⟨n, control', stack'⟩ := by
  cases h.frames <;> cases h.controls <;> rfl

theorem thread? : w.thread? World.mainThread = some ⟨World.mainThread, control, stack⟩ := by
  simp [World.thread?, h.threads]

theorem thread?' : w'.thread? World.mainThread = some ⟨World.mainThread, control', stack'⟩ := by
  simp [World.thread?, h.threads']

theorem isIdle : w.isIdle = w'.isIdle := by
  simp only [World.isIdle, h.thread?, h.thread?', Option.all_some, h.isOver]

theorem step (hkeeps : client.Keeps r) (hs : w.step client World.mainThread = some v) :
    ∃ v' control₁ control₁' stack₁ stack₁', w'.step client World.mainThread = some v' ∧
      r.Midway v v' control₁ control₁' stack₁ stack₁' ∧ r.Inside w v := by
  obtain ⟨thread, ht, hmove⟩ := Option.bind_eq_some_iff.mp hs
  cases h.thread?.symm.trans ht
  obtain ⟨m, hm, -⟩ := Option.bind_eq_some_iff.mp hmove
  obtain ⟨m', hm', hmoves⟩ :=
    World.move_together hkeeps h.worlds h.isAlive h.controls h.frames hm
  cases hs.symm.trans (World.step_of_move h.thread? hm)
  refine ⟨_, m.control, m'.control, m.stack, m'.stack, World.step_of_move h.thread?' hm',
    ⟨?_, ?_, ?_, hmoves.controls, hmoves.frames⟩, ?_⟩
  · exact ⟨hmoves.together.worlds.point, hmoves.together.worlds.view, hmoves.together.worlds.tasks⟩
  · simp [World.put, World.moved, hmoves.together.threads, h.threads]
  · simp [World.put, World.moved, hmoves.together.threads', h.threads']
  · exact ⟨hmoves.together.inside.points, hmoves.together.inside.rest, hmoves.together.inside.tasks⟩

end Midway

theorem Inside.trans {u : World M E K H} (h : r.Inside w v) (h' : r.Inside v u) : r.Inside w u :=
  ⟨fun q hne => (h'.points q hne).trans (h.points q hne), h'.rest.trans h.rest, h'.tasks.trans h.tasks⟩

end Realm

/-- A call within the realm has the same course in both exchanges, and leaves alone what is outside. -/
theorem Solo.follow (hkeeps : client.Keeps r) (solo : Solo client w trail v)
    (h : r.Midway w w' control control' stack stack') :
    ∃ trail' v' control₁ control₁' stack₁ stack₁', Solo client w' trail' v' ∧
      r.Midway v v' control₁ control₁' stack₁ stack₁' ∧ r.Inside w v ∧
      answers trail' = answers trail ∧ history r.point trail' = history r.point trail ∧
      (diagnoses trail').map unnumbered = (diagnoses trail).map unnumbered := by
  induction solo generalizing w' control control' stack stack' with
  | refl w => exact ⟨[], w', _, _, _, _, .refl w', h, .refl w, rfl, rfl, rfl⟩
  | @step w v u thread trail ht hs _ ih =>
    cases h.thread?.symm.trans ht
    obtain ⟨v', _, _, _, _, hs', hmidway, hinside⟩ := h.step hkeeps hs
    obtain ⟨trail', u', _, _, _, _, solo', hmidway', hinside', hanswers, hhistory, hdiagnoses⟩ :=
      ih hmidway
    refine ⟨_, u', _, _, _, _, .step h.thread?' hs' solo', hmidway', hinside.trans hinside', ?_, ?_, ?_⟩
    · simp only [answers, List.filterMap_cons, h.answer] at hanswers ⊢
      rw [hanswers]
    · simp only [history, List.flatMap_cons, h.happenings] at hhistory ⊢
      rw [hhistory]
    · simp only [diagnoses_unnumbered, List.filterMap_cons, h.diagnosis] at hdiagnoses ⊢
      rw [hdiagnoses]

/-- A call within the realm begins. -/
theorem World.IsAlone.midway (h : w.IsAlone) (h' : w'.IsAlone) (hw : r.Worlds w w')
    (hop : r.Admits op) :
    r.Midway (w.calling op) (w'.calling op) (.eval (.just op)) (.eval (.just op)) [] [] := by
  obtain ⟨_, hthreads⟩ := h
  obtain ⟨_, hthreads'⟩ := h'
  refine ⟨⟨hw.point, hw.view, hw.tasks⟩, ?_, ?_, .eval (.call hop fun _ _ => .ret trivial), .nil⟩
  · simp [calling, assign, hthreads]
  · simp [calling, assign, hthreads']

theorem Realm.Midway.isAlone (h : r.Midway w w' control control' stack stack') (hidle : w.isIdle) :
    w.IsAlone ∧ w'.IsAlone := by
  have hover : Thread.isOver ⟨World.mainThread, control, stack⟩ := by
    simpa [World.isIdle, h.thread?] using hidle
  have hstack : stack = [] := by
    cases stack <;> cases control <;> simp_all [Thread.isOver]
  subst hstack
  cases h.frames
  exact ⟨⟨_, h.threads⟩, ⟨_, h.threads'⟩⟩

/-- A call within the realm has the same course, and tells the same of its point, wherever the realm looks
the same; what is outside is left alone. -/
theorem Realm.Worlds.call (hkeeps : client.Keeps r) (hw : r.Worlds w w') (halone : w.IsAlone)
    (halone' : w'.IsAlone) (hop : r.Admits op) (solo : Solo client (w.calling op) trail v)
    (hidle : v.isIdle) :
    ∃ trail' v', Solo client (w'.calling op) trail' v' ∧ v'.isIdle ∧ r.Worlds v v' ∧ v.IsAlone ∧
      v'.IsAlone ∧ r.Inside w v ∧
      Visit.account r.point ⟨op, trail', v'⟩ = Visit.account r.point ⟨op, trail, v⟩ := by
  obtain ⟨trail', v', _, _, _, _, solo', hmidway, hinside, hanswers, hhistory, hdiagnoses⟩ :=
    solo.follow hkeeps (halone.midway halone' hw hop)
  obtain ⟨hdone, hdone'⟩ := hmidway.isAlone hidle
  obtain ⟨point, hp, hp', -⟩ := hmidway.worlds.point
  refine ⟨trail', v', solo', hmidway.isIdle ▸ hidle, hmidway.worlds, hdone, hdone',
    ⟨hinside.points, hinside.rest, hinside.tasks⟩, ?_⟩
  simp only [Visit.account, hanswers, hhistory, hdiagnoses, hp, hp']

end

/-! ## Two realms -/

/-- Two realms with different points, each of which leaves alone what the other one uses. -/
structure Realm.Apart (r : Realm K H V W) (r' : Realm K H W V) : Prop where
  point : r.point ≠ r'.point
  view : r.view = r'.rest
  view' : r'.view = r.rest

/-- The call is made on the point of the realm, and keeps to the realm. -/
def Visit.Within (r : Realm K H V W) (visit : Visit M E K H) : Prop :=
  visit.isOn r.point ∧ r.Admits visit.op

section
variable {client : Client M E K H} {start w w' v : World M E K H} {visits visits' : List (Visit M E K H)}
variable {r : Realm K H V W} {r' : Realm K H W V}

theorem Realm.Apart.symm (h : r.Apart r') : r'.Apart r := ⟨h.point.symm, h.view', h.view⟩

theorem Realm.Worlds.left (h : r.Worlds w w') : r.Worlds w w := by
  obtain ⟨point, hp, -, howned⟩ := h.point
  exact ⟨⟨point, hp, hp, howned⟩, rfl, rfl⟩

/-- What changes within the one realm is not seen from the other. -/
theorem Realm.Inside.worlds (h : r'.Inside w v) (hapart : r.Apart r') (hw : r.Worlds w w') :
    r.Worlds v w' := by
  obtain ⟨point, hp, hp', howned⟩ := hw.point
  refine ⟨⟨point, (h.points _ hapart.point).trans hp, hp', howned⟩, ?_, h.tasks.trans hw.tasks⟩
  rw [hapart.view, h.rest, ← hapart.view, hw.view]

theorem Visit.Within.not_isOn {visit : Visit M E K H} (h : visit.Within r') (hapart : r.Apart r') :
    visit.isOn r.point = false := by
  have hon : visit.op.point? = some r'.point := by simpa [Visit.isOn] using h.1
  simp [Visit.isOn, hon, hapart.point.symm]

section
variable (hapart : r.Apart r') (hkeeps : client.Keeps r) (hkeeps' : client.Keeps r')
variable (halone : start.IsAlone) (hstart : r.Worlds start start) (hstart' : r'.Worlds start start)
include hapart hkeeps hkeeps' halone hstart hstart'

/-- The calls on the other point left out, there is a session in which the point tells the same. -/
theorem Session.restrict (session : Session client start visits w)
    (hvisits : ∀ visit ∈ visits, visit.Within r ∨ visit.Within r') :
    ∃ visits' w', Session client start visits' w' ∧
      visits'.map (Visit.account r.point) =
        (visits.filter (Visit.isOn r.point)).map (Visit.account r.point) ∧
      r.Worlds w w' ∧ r'.Worlds w w ∧ w.IsAlone ∧ w'.IsAlone := by
  induction session with
  | nil => exact ⟨[], start, .nil, rfl, hstart, hstart', halone, halone⟩
  | @call visits w v trail op _ solo hidle ih =>
    simp only [List.mem_append, List.mem_singleton, or_imp, forall_and, forall_eq] at hvisits
    obtain ⟨hbefore, hvisit⟩ := hvisits
    obtain ⟨visits', w', session', haccounts, hw, hw', hdone, hdone'⟩ := ih hbefore
    rcases hvisit with hvisit | hvisit
    · obtain ⟨trail', v', solo', hidle', hv, hlone, hlone', hinside, haccount⟩ :=
        hw.call hkeeps hdone hdone' hvisit.2 solo hidle
      refine ⟨_, v', session'.call op solo' hidle', ?_, hv, ?_, hlone, hlone'⟩
      · rw [List.filter_append, List.filter_singleton, hvisit.1, List.map_append, List.map_append,
          haccounts]
        simp only [cond_true, List.map_cons, List.map_nil, haccount]
      · exact (hinside.worlds hapart.symm hw').left
    · -- the exchange without the calls on the other point stays where it is
      obtain ⟨_, _, _, _, hv, hlone, _, hinside, _⟩ := hw'.call hkeeps' hdone hdone hvisit.2 solo hidle
      refine ⟨visits', w', session', ?_, hinside.worlds hapart hw, hv.left, hlone, hdone'⟩
      rw [List.filter_append, List.filter_singleton, hvisit.not_isOn hapart, haccounts]
      simp

/-- What a point tells depends on the calls on it only. -/
theorem Session.accounts_eq {w₁ w₂ : World M E K H} {visits₁ visits₂ : List (Visit M E K H)}
    (session₁ : Session client start visits₁ w₁) (session₂ : Session client start visits₂ w₂)
    (hvisits₁ : ∀ visit ∈ visits₁, visit.Within r ∨ visit.Within r')
    (hvisits₂ : ∀ visit ∈ visits₂, visit.Within r ∨ visit.Within r')
    (hops : (visits₁.filter (Visit.isOn r.point)).map (·.op) =
      (visits₂.filter (Visit.isOn r.point)).map (·.op)) :
    (visits₁.filter (Visit.isOn r.point)).map (Visit.account r.point) =
      (visits₂.filter (Visit.isOn r.point)).map (Visit.account r.point) := by
  obtain ⟨alone₁, _, without₁, haccounts₁, -⟩ :=
    session₁.restrict hapart hkeeps hkeeps' halone hstart hstart' hvisits₁
  obtain ⟨alone₂, _, without₂, haccounts₂, -⟩ :=
    session₂.restrict hapart hkeeps hkeeps' halone hstart hstart' hvisits₂
  have ops {visits visits' : List (Visit M E K H)}
      (h : visits'.map (Visit.account r.point) = visits.map (Visit.account r.point)) :
      visits'.map (·.op) = visits.map (·.op) := by
    simpa [Visit.account, Function.comp_def] using congrArg (List.map (·.op)) h
  have hsame : alone₁ = alone₂ := (without₁.unique without₂
    ((ops haccounts₁).trans (hops.trans (ops haccounts₂).symm))).1
  rw [← haccounts₁, ← haccounts₂, hsame]

end

/-- Points do not influence each other. Of two points that have been created, whose code keeps to the realm
of its point, each tells in a session of calls on both what it tells when the calls on the other are left
out: the calls and their answers, all that happens on it, how it is left by each call, and the diagnostics
but for their numbers. So it tells the same in any two sessions with the same calls on it. -/
theorem points_keep_apart (hapart : r.Apart r') (hkeeps : client.Keeps r) (hkeeps' : client.Keeps r')
    (halone : start.IsAlone) {point point' : Point M E K} (hp : start.points[r.point]? = some point)
    (howned : point.Owned r.owns) (hp' : start.points[r'.point]? = some point')
    (howned' : point'.Owned r'.owns) (session : Session client start visits w)
    (hvisits : ∀ visit ∈ visits, visit.Within r ∨ visit.Within r') :
    (∃ alone w', Session client start alone w' ∧
      alone.map (Visit.account r.point) =
        (visits.filter (Visit.isOn r.point)).map (Visit.account r.point)) ∧
    (∃ alone w', Session client start alone w' ∧
      alone.map (Visit.account r'.point) =
        (visits.filter (Visit.isOn r'.point)).map (Visit.account r'.point)) ∧
    ∀ visits' w', Session client start visits' w' →
      (∀ visit ∈ visits', visit.Within r ∨ visit.Within r') →
      ((visits'.filter (Visit.isOn r.point)).map (·.op) =
          (visits.filter (Visit.isOn r.point)).map (·.op) →
        (visits'.filter (Visit.isOn r.point)).map (Visit.account r.point) =
          (visits.filter (Visit.isOn r.point)).map (Visit.account r.point)) ∧
      ((visits'.filter (Visit.isOn r'.point)).map (·.op) =
          (visits.filter (Visit.isOn r'.point)).map (·.op) →
        (visits'.filter (Visit.isOn r'.point)).map (Visit.account r'.point) =
          (visits.filter (Visit.isOn r'.point)).map (Visit.account r'.point)) := by
  have hstart : r.Worlds start start := ⟨⟨point, hp, hp, howned⟩, rfl, rfl⟩
  have hstart' : r'.Worlds start start := ⟨⟨point', hp', hp', howned'⟩, rfl, rfl⟩
  have swap {visits : List (Visit M E K H)} (h : ∀ visit ∈ visits, visit.Within r ∨ visit.Within r') :
      ∀ visit ∈ visits, visit.Within r' ∨ visit.Within r := fun visit hvisit => (h visit hvisit).symm
  refine ⟨?_, ?_, ?_⟩
  · obtain ⟨alone, w', session', haccounts, -⟩ :=
      session.restrict hapart hkeeps hkeeps' halone hstart hstart' hvisits
    exact ⟨alone, w', session', haccounts⟩
  · obtain ⟨alone, w', session', haccounts, -⟩ :=
      session.restrict hapart.symm hkeeps' hkeeps halone hstart' hstart (swap hvisits)
    exact ⟨alone, w', session', haccounts⟩
  · intro visits' w' session' hvisits'
    constructor
    · intro hops
      exact session'.accounts_eq hapart hkeeps hkeeps' halone hstart hstart' session hvisits' hvisits hops
    · intro hops
      exact session'.accounts_eq hapart.symm hkeeps' hkeeps halone hstart' hstart session
        (swap hvisits') (swap hvisits) hops

end

/-! ### Neighbours -/

namespace World

/-- The steps of the main thread. -/
def solo (client : Client M E K H) : Nat → World M E K H → List (Moment M E K H) × World M E K H
  | 0, w => ([], w)
  | fuel + 1, w =>
    match w.thread? mainThread, w.step client mainThread with
    | some thread, some v => (⟨w, thread⟩ :: (v.solo client fuel).1, (v.solo client fuel).2)
    | _, _ => ([], w)

theorem solo_solo (client : Client M E K H) (fuel : Nat) (w : World M E K H) :
    Solo client w (w.solo client fuel).1 (w.solo client fuel).2 := by
  induction fuel generalizing w with
  | zero => exact .refl w
  | succ fuel ih =>
    unfold solo
    split
    · rename_i ht hs
      exact .step ht hs (ih _)
    · exact .refl w

def visit (client : Client M E K H) (fuel : Nat) (op : Op M E K) (w : World M E K H) : Visit M E K H :=
  ⟨op, ((w.calling op).solo client fuel).1, ((w.calling op).solo client fuel).2⟩

/-- Those calls, one after the other. -/
def visits (client : Client M E K H) (fuel : Nat) :
    List (Op M E K) → World M E K H → List (Visit M E K H)
  | [], _ => []
  | op :: ops, w => w.visit client fuel op :: visits client fuel ops (w.visit client fuel op).after

theorem session_visits {client : Client M E K H} {fuel : Nat} {start w : World M E K H}
    {earlier : List (Visit M E K H)} {ops : List (Op M E K)} (session : Session client start earlier w)
    (h : ∀ visit ∈ w.visits client fuel ops, visit.after.isIdle) :
    ∃ v, Session client start (earlier ++ w.visits client fuel ops) v := by
  induction ops generalizing earlier w with
  | nil => exact ⟨w, by simpa [visits] using session⟩
  | cons op ops ih =>
    rw [visits, List.forall_mem_cons] at h
    obtain ⟨v, hv⟩ := ih (session.call op (solo_solo client fuel _) h.1) h.2
    exact ⟨v, by simpa [visits, visit] using hv⟩

theorem op_visits {client : Client M E K H} {fuel : Nat} (ops : List (Op M E K)) (w : World M E K H) :
    (w.visits client fuel ops).map (·.op) = ops := by
  induction ops generalizing w with
  | nil => rfl
  | cons op ops ih => rw [visits, List.map_cons, ih, visit]

theorem op_visits_on {client : Client M E K H} {fuel : Nat} (ops : List (Op M E K)) (w : World M E K H)
    (p : Nat) : ((w.visits client fuel ops).filter (Visit.isOn p)).map (·.op) =
      ops.filter fun op => op.point? = some p := by
  have hmap := List.filter_map (p := fun op : Op M E K => decide (op.point? = some p))
    (f := Visit.op) (l := w.visits client fuel ops)
  rw [op_visits] at hmap
  exact hmap.symm

theorem within_visits {client : Client M E K H} {fuel : Nat} {ops : List (Op M E K)} {w : World M E K H}
    {r : Realm K H V W} {r' : Realm K H W V}
    (h : ∀ op ∈ ops, op.point? = some r.point ∧ r.Admits op ∨ op.point? = some r'.point ∧ r'.Admits op) :
    ∀ visit ∈ w.visits client fuel ops, visit.Within r ∨ visit.Within r' := by
  intro visit hvisit
  have hop : visit.op ∈ ops := op_visits ops w ▸ List.mem_map_of_mem hvisit
  simpa [Visit.Within, Visit.isOn] using h _ hop

end World

/-- Of two points each has observers and sinks of one kind, which share a count. -/
def neighbourRealm (first : Bool) : Realm Bool (Nat × Nat) Nat Nat where
  point := if first then 0 else 1
  owns := (· = first)
  view counts := if first then counts.1 else counts.2
  rest counts := if first then counts.2 else counts.1

def counted (first : Bool) (counts : Nat × Nat) : Nat × Nat :=
  if first then (counts.1 + 1, counts.2) else (counts.1, counts.2 + 1)

/-- Observers count their turns and register another observer at their point; sinks count, and panic. -/
def neighbourClient : Client Unit Unit Bool (Nat × Nat) where
  observer first _ := .host (counted first) fun _ =>
    .call (.register (neighbourRealm first).point .passive first) fun _ => .ret true
  routine _ := .ret ()
  sink first _ := .host (counted first) fun _ => .panic .other
  start code _ := .ret code
  poll _ _ := .ret (.done (.ok ()))
  render _ := .ret (.ok none)
  internalError := ()
  timeout := ()
  record _ counts := counts
  bound _ _ counts := counts

theorem neighbourClient_keeps (first : Bool) : neighbourClient.Keeps (neighbourRealm first) := by
  have hview (counts counts' : Nat × Nat)
      (h : (neighbourRealm first).view counts = (neighbourRealm first).view counts') :
      (neighbourRealm first).view (counted first counts) =
        (neighbourRealm first).view (counted first counts') := by
    cases first <;> simpa [neighbourRealm, counted] using h
  have hrest (counts : Nat × Nat) :
      (neighbourRealm first).rest (counted first counts) = (neighbourRealm first).rest counts := by
    cases first <;> rfl
  constructor
  · rintro _ rfl event
    exact .host hview hrest hrest fun _ _ _ => .call (.register .passive rfl) fun _ _ => .ret trivial
  · exact fun _ _ => .ret trivial
  · rintro _ rfl kind label reason seq seq'
    exact .host hview hrest hrest fun _ _ _ => .panic .other
  · exact fun _ _ => ⟨rfl, rfl⟩

/-- Two sessions with the same calls on the first point and different calls on the second. -/
theorem points_keep_apart_neighbours :
    let start := (World.runCalls neighbourClient (0, 0) [.create "first" (.client "sink" true),
      .create "second" (.client "sink" false)] 40).2
    let visits := start.visits neighbourClient 40 [.register 0 .active true, .register 1 .active false,
      .push 1 (.ofResponse () true), .push 0 (.ofResponse () false)]
    let visits' := start.visits neighbourClient 40 [.register 0 .active true,
      .push 0 (.ofResponse () false), .poke 1]
    (visits'.filter (Visit.isOn 0)).map (Visit.account 0) =
      (visits.filter (Visit.isOn 0)).map (Visit.account 0) := by
  intro start visits visits'
  have hidle : ∀ visit ∈ visits, visit.after.isIdle := by decide
  have hidle' : ∀ visit ∈ visits', visit.after.isIdle := by decide
  obtain ⟨w, session⟩ := World.session_visits .nil hidle
  obtain ⟨w', session'⟩ := World.session_visits .nil hidle'
  have hvisits : ∀ visit ∈ visits,
      visit.Within (neighbourRealm true) ∨ visit.Within (neighbourRealm false) := by
    apply World.within_visits
    simp only [List.forall_mem_cons, List.not_mem_nil, false_implies, implies_true, and_true]
    exact ⟨.inl ⟨rfl, .register _ rfl⟩, .inr ⟨rfl, .register _ rfl⟩, .inr ⟨rfl, .push _⟩,
      .inl ⟨rfl, .push _⟩⟩
  have hvisits' : ∀ visit ∈ visits',
      visit.Within (neighbourRealm true) ∨ visit.Within (neighbourRealm false) := by
    apply World.within_visits
    simp only [List.forall_mem_cons, List.not_mem_nil, false_implies, implies_true, and_true]
    exact ⟨.inl ⟨rfl, .register _ rfl⟩, .inl ⟨rfl, .push _⟩, .inr ⟨rfl, .poke⟩⟩
  have hapart : (neighbourRealm true).Apart (neighbourRealm false) := ⟨by decide, rfl, rfl⟩
  have hp : start.points[0]? = some { request := "first", sink := .client "sink" true } := rfl
  have hp' : start.points[1]? = some { request := "second", sink := .client "sink" false } := rfl
  have howned (request : String) (first : Bool) : Point.Owned (neighbourRealm first).owns
      ({ request, sink := .client "sink" first } : Point Unit Unit Bool) :=
    ⟨.client _ rfl, by simp [Phase.Owned], by simp⟩
  obtain ⟨-, -, h⟩ := points_keep_apart hapart (neighbourClient_keeps true) (neighbourClient_keeps false)
    ⟨_, rfl⟩ hp (howned _ _) hp' (howned _ _) session hvisits
  have hops : (visits'.filter (Visit.isOn 0)).map (·.op) = (visits.filter (Visit.isOn 0)).map (·.op) := by
    rw [World.op_visits_on, World.op_visits_on]
    rfl
  exact (h visits' w' session' hvisits').1 hops

end Exchange