import Mathlib.Data.List.Forall2
import Exchange.Proofs.Stride

/-!
The realm of a point: the point itself, the code that is handed to it, and the part of the client's state
that this code uses. What is done within the realm depends on nothing outside, and changes nothing outside:
two exchanges that agree on the realm do the same there, step by step, except for the numbers of diagnostics,
which all points share.
-/

namespace Exchange
set_option autoImplicit false

variable {M E K H V W α β : Type}

/-! ## Realms -/

structure Realm (K H V W : Type) where
  point : Nat
  /-- The code that is handed to the point. -/
  owns : K → Prop
  /-- The part of the client's state that this code uses. -/
  view : H → V
  /-- What this code leaves as it is. -/
  rest : H → W

/-- A sink whose members all run code of that kind. -/
inductive Sink.Owned (owns : K → Prop) : Sink K → Prop
  | client (name : String) {code : K} : owns code → Owned owns (.client name code)
  | recorder : Owned owns .recorder
  | set {members : List (Sink K)} : (∀ sink ∈ members, Owned owns sink) → Owned owns (.set members)

def Notice.Owned (owns : K → Prop) : Notice K → Prop
  | .cancel _ => False
  | .run code => owns code

def Entry.Owned (owns : K → Prop) : Entry K → Prop
  | .observer _ _ code => owns code
  | .ending _ notice => notice.Owned owns

def Postponed.Owned (owns : K → Prop) : Postponed M E K → Prop
  | .ending _ notice => notice.Owned owns
  | _ => True

def Phase.Owned (owns : K → Prop) : Phase M E K → Prop
  | .listening entries => ∀ entry ∈ entries, entry.Owned owns
  | .dispatching _ pass => (∀ entry ∈ pass.waiting, entry.Owned owns) ∧
      (∀ entry ∈ pass.kept, entry.Owned owns) ∧ ∀ call ∈ pass.postponed, call.Owned owns
  | .ended farewell => ∀ entry ∈ farewell.waiting, entry.Owned owns

/-- All code that the point has been handed is of that kind. -/
structure Point.Owned (owns : K → Prop) (point : Point M E K) : Prop where
  sink : point.sink.Owned owns
  phase : point.phase.Owned owns
  pokeHandler : ∀ code, point.pokeHandler = some code → owns code

namespace Realm
variable (r : Realm K H V W)

/-- Calls that operate on the point of the realm, and on no other. -/
inductive Admits : Op M E K → Prop
  | release : Admits (.release r.point)
  | inspect : Admits (.inspect r.point)
  | register (interest : Interest) {code : K} : r.owns code → Admits (.register r.point interest code)
  | unregister {handle : Handle} : (∀ p, handle.point = some p → p = r.point) →
      Admits (.unregister handle)
  | atEnd {code : K} : r.owns code → Admits (.atEnd r.point (.run code))
  | push (event : Event M E) : Admits (.push r.point event)
  | poke : Admits (.poke r.point)
  | answerPoke {code : K} : r.owns code → Admits (.answerPoke r.point code)
  | emit (kind : Kind) (label reason : Option String) : Admits (.emit r.point kind label reason)
  | report {sink : Sink K} (kind : Kind) (label reason : Option String) : sink.Owned r.owns →
      Admits (.report sink kind label reason)
  /-- Code that is run so that its panics are caught. -/
  | attempt {code : K} : r.owns code → Admits (.attempt code)

/-- The answers to such calls: handles are for the point of the realm, or inert. -/
def Answers : Reply M K → Prop
  | .registered (.ok handle) => ∀ p, handle.point = some p → p = r.point
  | .view view => view.number = r.point ∧ view.sink.Owned r.owns
  | .point _ | .task _ | .taskView _ | .time _ | .future _ | .progress _ | .rendered _ => False
  | _ => True

/-- Two pieces of code that do the same within the realm, from states that look the same from there, and
leave alone what is outside. -/
inductive Agree (good : α → Prop) : Code M E K H α → Code M E K H α → Prop
  | ret {value : α} : good value → Agree good (.ret value) (.ret value)
  | panic (payload : Payload) : Agree good (.panic payload) (.panic payload)
  | host {change change' : H → H} {next next' : H → Code M E K H α} :
      (∀ host host', r.view host = r.view host' → r.view (change host) = r.view (change' host')) →
      (∀ host, r.rest (change host) = r.rest host) →
      (∀ host, r.rest (change' host) = r.rest host) →
      (∀ host host', r.view host = r.view host' → Agree good (next host) (next' host')) →
      Agree good (.host change next) (.host change' next')
  | call {op : Op M E K} {next next' : Reply M K → Code M E K H α} : r.Admits op →
      (∀ reply, r.Answers reply → Agree good (next reply) (next' reply)) →
      Agree good (.call op next) (.call op next')

end Realm

/-- The code that is handed to the point of a realm keeps to the realm. Its sinks may write down the number
of a diagnostic, but what they do does not depend on it; what recorders write nobody reads. -/
structure Client.Keeps (client : Client M E K H) (r : Realm K H V W) : Prop where
  observer : ∀ code, r.owns code → ∀ event,
    r.Agree (fun _ => True) (client.observer code event) (client.observer code event)
  routine : ∀ code, r.owns code →
    r.Agree (fun _ => True) (client.routine code) (client.routine code)
  sink : ∀ code, r.owns code → ∀ kind label reason seq seq',
    r.Agree (fun _ => True) (client.sink code ⟨kind, label, reason, seq⟩)
      (client.sink code ⟨kind, label, reason, seq'⟩)
  record : ∀ record host, r.view (client.record record host) = r.view host ∧
    r.rest (client.record record host) = r.rest host

namespace Realm
variable {r : Realm K H V W}

theorem Agree.bind {good : α → Prop} {good' : β → Prop} {code code' : Code M E K H α}
    {next : α → Code M E K H β} (h : r.Agree good code code')
    (hnext : ∀ value, good value → r.Agree good' (next value) (next value)) :
    r.Agree good' (code.bind next) (code'.bind next) := by
  induction h with
  | ret hgood => exact hnext _ hgood
  | panic payload => exact .panic payload
  | host hchange hrest hrest' _ ih => exact .host hchange hrest hrest' ih
  | call hop _ ih => exact .call hop ih

end Realm

/-! ## What the point has been handed -/

section
variable {owns : K → Prop} {phase : Phase M E K} {pass : Pass M E K}

namespace Phase.Owned

theorem join (h : phase.Owned owns) (entry : Entry K) (hentry : entry.Owned owns) :
    (phase.join entry).Owned owns := by
  cases phase with
  | listening entries =>
    intro other hother
    rcases List.mem_append.mp hother with hold | hnew
    · exact h other hold
    · exact List.mem_singleton.mp hnew ▸ hentry
  | _ => exact h

theorem postpone (h : phase.Owned owns) (call : Postponed M E K) (hcall : call.Owned owns) :
    (phase.postpone call).Owned owns := by
  cases phase with
  | dispatching owner pass =>
    refine ⟨h.1, h.2.1, ?_⟩
    intro other hother
    rcases List.mem_append.mp hother with hold | hnew
    · exact h.2.2 other hold
    · exact List.mem_singleton.mp hnew ▸ hcall
  | _ => exact h

theorem openPass (h : phase.Owned owns) (t : Nat) (event : Event M E) :
    (phase.openPass t event).Owned owns := by
  cases phase with
  | listening entries => exact ⟨h, by simp, by simp⟩
  | _ => exact h

theorem remove (h : phase.Owned owns) (id : Nat) : (phase.remove id).Owned owns := by
  cases phase with
  | listening entries =>
    have hrest : ∀ entry ∈ without id entries, entry.Owned owns := fun entry hentry =>
      h entry (List.mem_filter.mp hentry).1
    simp only [Phase.remove]
    split
    · exact hrest
    · exact hrest
  | _ => exact h

theorem advance (h : phase.Owned owns) (stays : Bool) : (phase.advance stays).Owned owns := by
  cases phase with
  | listening => exact h
  | dispatching owner pass =>
    obtain ⟨hwaiting, hkept, hpostponed⟩ := h
    simp only [Phase.advance, Pass.advance]
    split
    · exact ⟨hwaiting, hkept, hpostponed⟩
    · rename_i entry rest heq
      rw [heq, List.forall_mem_cons] at hwaiting
      refine ⟨hwaiting.2, ?_, hpostponed⟩
      split
      · intro other hother
        rcases List.mem_append.mp hother with hold | hnew
        · exact hkept other hold
        · exact List.mem_singleton.mp hnew ▸ hwaiting.1
      · exact hkept
  | ended farewell => exact fun entry hentry => h entry (List.mem_of_mem_tail hentry)

theorem dropLate (h : phase.Owned owns) : phase.dropLate.Owned owns := by
  cases phase <;> exact h

theorem settled {calls : List (Postponed M E K)} (hcalls : ∀ call ∈ calls, call.Owned owns)
    {state : List (Entry K) × List (Event M E)} (hstate : ∀ entry ∈ state.1, entry.Owned owns) :
    ∀ entry ∈ (calls.foldl Pass.applyPostponed state).1, entry.Owned owns := by
  induction calls generalizing state with
  | nil => exact hstate
  | cons call calls ih =>
    rw [List.forall_mem_cons] at hcalls
    apply ih hcalls.2
    cases call with
    | unregister id => exact fun entry hentry => hstate entry (List.mem_filter.mp hentry).1
    | push => exact hstate
    | ending ticket notice =>
      intro entry hentry
      rcases List.mem_append.mp hentry with hold | hnew
      · exact hstate entry hold
      · exact List.mem_singleton.mp hnew ▸ hcalls.1

theorem commit {owner : Nat} (h : (Phase.dispatching owner pass).Owned owns) (t : Nat) :
    (pass.commit t).Owned owns := by
  obtain ⟨-, hkept, hpostponed⟩ := h
  have hsettled : ∀ entry ∈ pass.settled.1, entry.Owned owns := settled hpostponed hkept
  simp only [Pass.commit]
  repeat' split
  · exact fun entry hentry => hsettled entry (List.mem_filter.mp hentry).1
  · exact hsettled
  · exact hsettled
  · exact ⟨hsettled, by simp, by simp⟩

theorem due {entry : Entry K} {event : Event M E} (h : phase.Owned owns)
    (hdue : phase.due = some (entry, event)) : entry.Owned owns := by
  cases phase with
  | listening => cases hdue
  | dispatching owner pass =>
    obtain ⟨other, hhead, hother⟩ := Option.map_eq_some_iff.mp hdue
    cases hother
    exact h.1 _ (List.mem_of_mem_head? hhead)
  | ended farewell =>
    obtain ⟨other, hhead, hother⟩ := Option.map_eq_some_iff.mp hdue
    cases hother
    exact h _ (List.mem_of_mem_head? hhead)

end Phase.Owned
end

/-! ## In the middle of a call -/

namespace Realm
variable (r : Realm K H V W)

/-- What is left to do for the point, and what its entries are given. -/
inductive Dues : Act M E K → Prop
  | report {sink : Sink K} (kind : Kind) (label reason : Option String) : sink.Owned r.owns →
      Dues (.report sink kind label reason)
  | present {code : K} (event : Event M E) : r.owns code → Dues (.present code event)
  | notify (ticket : Nat) {code : K} : r.owns code → Dues (.notify ticket (.run code))
  | run {code : K} : r.owns code → Dues (.run code)

/-- Frames of calls within the realm. -/
inductive Frames : Frame M E K H → Frame M E K H → Prop
  | caller {next next' : Reply M K → Code M E K H (Reply M K)} :
      (∀ reply, r.Answers reply → r.Agree r.Answers (next reply) (next' reply)) →
      Frames (.caller next) (.caller next')
  | acts {todo : List (Act M E K)} {answer : Reply M K} : (∀ act ∈ todo, r.Dues act) →
      r.Answers answer → Frames (.acts r.point todo answer) (.acts r.point todo answer)
  | serving : Frames (.serving r.point) (.serving r.point)
  | delivering : Frames (.delivering r.point) (.delivering r.point)
  | receiving : Frames .receiving .receiving
  | fanOut {members : List (Sink K)} (skip : Option Nat) (next : Nat) (kind : Kind)
      (label reason : Option String) (seq seq' : Nat) : (∀ sink ∈ members, sink.Owned r.owns) →
      Frames (.fanOut members skip next ⟨kind, label, reason, seq⟩)
        (.fanOut members skip next ⟨kind, label, reason, seq'⟩)
  | catching : Frames .catching .catching

inductive Controls : Control M E K H → Control M E K H → Prop
  | eval {code code' : Code M E K H (Reply M K)} : r.Agree r.Answers code code' →
      Controls (.eval code) (.eval code')
  | perform {op : Op M E K} : r.Admits op → Controls (.perform op) (.perform op)
  | act {act : Act M E K} : r.Dues act → Controls (.act act) (.act act)
  | deliver {sink : Sink K} (kind : Kind) (label reason : Option String) (seq seq' : Nat) :
      sink.Owned r.owns →
      Controls (.deliver sink ⟨kind, label, reason, seq⟩) (.deliver sink ⟨kind, label, reason, seq'⟩)
  | resume {reply : Reply M K} : r.Answers reply → Controls (.resume reply) (.resume reply)
  | unwind (payload : Payload) : Controls (.unwind payload) (.unwind payload)

/-- Two exchanges that look the same from within the realm. -/
structure Worlds (w w' : World M E K H) : Prop where
  point : ∃ point, w.points[r.point]? = some point ∧ w'.points[r.point]? = some point ∧
    point.Owned r.owns
  view : r.view w.host = r.view w'.host
  tasks : w.tasks = w'.tasks

/-- A change that leaves alone what is outside the realm. -/
structure Inside (w v : World M E K H) : Prop where
  points : ∀ q, q ≠ r.point → v.points[q]? = w.points[q]?
  rest : r.rest v.host = r.rest w.host
  tasks : v.tasks = w.tasks

/-- Two exchanges go on within the realm, and look the same from there as before. -/
structure Together (w w' v v' : World M E K H) : Prop where
  worlds : r.Worlds v v'
  inside : r.Inside w v
  inside' : r.Inside w' v'
  threads : v.threads = w.threads
  threads' : v'.threads = w'.threads

structure Moves (w w' : World M E K H) (m m' : Move M E K H) : Prop where
  together : r.Together w w' m.world m'.world
  controls : r.Controls m.control m'.control
  frames : List.Forall₂ r.Frames m.stack m'.stack

end Realm

section
variable {client : Client M E K H} {r : Realm K H V W} {w w' v v' : World M E K H} {t : Nat}
variable {control control' : Control M E K H} {stack stack' : List (Frame M E K H)}
variable {m m' : Move M E K H} {point new : Point M E K} {op : Op M E K}

theorem Realm.Inside.refl (w : World M E K H) : r.Inside w w := ⟨fun _ _ => rfl, rfl, rfl⟩

theorem Realm.Inside.set (w : World M E K H) (new : Point M E K) :
    r.Inside w { w with points := w.points.set r.point new } :=
  ⟨fun _ hne => List.getElem?_set_ne (Ne.symm hne), rfl, rfl⟩

namespace Realm.Worlds

theorem together (h : r.Worlds w w') : r.Together w w' w w' := ⟨h, .refl w, .refl w', rfl, rfl⟩

theorem set (h : r.Worlds w w') (hnew : new.Owned r.owns) :
    r.Together w w' { w with points := w.points.set r.point new }
      { w' with points := w'.points.set r.point new } := by
  obtain ⟨point, hp, hp', -⟩ := h.point
  have hlt := (List.getElem?_eq_some_iff.mp hp).1
  have hlt' := (List.getElem?_eq_some_iff.mp hp').1
  refine ⟨⟨⟨new, ?_, ?_, hnew⟩, h.view, h.tasks⟩, .set w new, .set w' new, rfl, rfl⟩
  · simp [hlt]
  · simp [hlt']

theorem modify (h : r.Worlds w w') {change : Point M E K → Point M E K}
    (hchange : ∀ point, point.Owned r.owns → (change point).Owned r.owns) :
    r.Together w w' { w with points := w.points.modify r.point change }
      { w' with points := w'.points.modify r.point change } := by
  obtain ⟨point, hp, hp', howned⟩ := h.point
  have outside (u : World M E K H) : r.Inside u { u with points := u.points.modify r.point change } :=
    ⟨fun _ hne => List.getElem?_modify_ne _ _ (Ne.symm hne), rfl, rfl⟩
  refine ⟨⟨⟨change point, ?_, ?_, hchange point howned⟩, h.view, h.tasks⟩, outside w, outside w', rfl, rfl⟩
  · simp [hp]
  · simp [hp']

theorem setPhase (h : r.Worlds w w') {phase : Phase M E K} (hphase : phase.Owned r.owns) :
    r.Together w w' (w.setPhase r.point phase) (w'.setPhase r.point phase) :=
  h.modify fun _ howned => ⟨howned.sink, hphase, howned.pokeHandler⟩

end Realm.Worlds

theorem Realm.Together.answer (h : r.Together w w' v v') (hstack : List.Forall₂ r.Frames stack stack')
    (reply : Reply M K) (hreply : r.Answers reply) :
    r.Moves w w' (.answer v stack reply) (.answer v' stack' reply) := ⟨h, .resume hreply, hstack⟩

theorem Realm.Together.acts (h : r.Together w w' v v') (hstack : List.Forall₂ r.Frames stack stack')
    {todo : List (Act M E K)} (htodo : ∀ act ∈ todo, r.Dues act) {reply : Reply M K}
    (hreply : r.Answers reply) :
    r.Moves w w' (.acts v stack r.point todo reply) (.acts v' stack' r.point todo reply) :=
  ⟨h, .resume trivial, .cons (.acts htodo hreply) hstack⟩

theorem Realm.Together.serve (h : r.Together w w' v v') (hstack : List.Forall₂ r.Frames stack stack') :
    r.Moves w w' (.serve v stack r.point) (.serve v' stack' r.point) :=
  ⟨h, .resume trivial, .cons .serving hstack⟩

theorem Point.Owned.report (h : point.Owned r.owns) (kind : Kind) (reason : Option String) :
    r.Dues (point.report r.point kind reason) := .report _ _ _ h.sink

/-! ### Calls -/

section
variable (hw : r.Worlds w w') (hstack : List.Forall₂ r.Frames stack stack')
variable (howned : point.Owned r.owns)
include hw hstack howned

theorem World.register_together {interest : Interest} {code : K} (hcode : r.owns code)
    (h : w.register t stack r.point point interest code = some m) :
    ∃ m', w'.register t stack' r.point point interest code = some m' ∧ r.Moves w w' m m' := by
  unfold register at h ⊢
  split at h
  · cases h
  · cases h
    refine ⟨_, rfl, hw.together.acts hstack ?_ trivial⟩
    simpa using howned.report _ _
  · split at h <;> cases h
    · rename_i hended
      rw [if_pos hended]
      refine ⟨_, rfl, hw.together.acts hstack ?_ ?_⟩
      · simpa using ⟨howned.report _ _, .present _ hcode⟩
      · simp [Realm.Answers, Handle.inert]
    · rename_i hended
      rw [if_neg hended]
      refine ⟨_, rfl, (hw.set ?_).answer hstack _ ?_⟩
      · exact ⟨howned.sink, howned.phase.join (.observer _ _ _) hcode, howned.pokeHandler⟩
      · simp [Realm.Answers]

theorem World.unregister_together (halive : w.isAlive r.point = w'.isAlive r.point) {id : Nat}
    (h : w.unregister t stack r.point point id = some m) :
    ∃ m', w'.unregister t stack' r.point point id = some m' ∧ r.Moves w w' m m' := by
  unfold unregister at h ⊢
  rw [← halive]
  split at h
  · rename_i hdead
    cases h
    rw [if_pos hdead]
    exact ⟨_, rfl, hw.together.answer hstack .done trivial⟩
  · rename_i hlives
    rw [if_neg hlives]
    split at h
    · cases h
    · cases h
      exact ⟨_, rfl, (hw.setPhase (howned.phase.postpone (.unregister id) trivial)).answer hstack .done trivial⟩
    · have hremove := hw.setPhase (howned.phase.remove id)
      dsimp only at h ⊢
      split at h <;> cases h
      · rename_i hends
        rw [if_pos hends]
        exact ⟨_, rfl, hremove.serve hstack⟩
      · rename_i hends
        rw [if_neg hends]
        exact ⟨_, rfl, hremove.answer hstack .done trivial⟩

theorem World.atEnd_together {notice : Notice K} (hnotice : notice.Owned r.owns)
    (h : w.atEnd t stack r.point point notice = some m) :
    ∃ m', w'.atEnd t stack' r.point point notice = some m' ∧ r.Moves w w' m m' := by
  unfold atEnd at h ⊢
  dsimp only at h ⊢
  have ticket {phase : Phase M E K} (hphase : phase.Owned r.owns) :
      Point.Owned r.owns { point with phase, nextTicket := point.nextTicket + 1 } :=
    ⟨howned.sink, hphase, howned.pokeHandler⟩
  have numbered {phase : Phase M E K} (hphase : phase.Owned r.owns) := hw.set (ticket hphase)
  have hnotify : r.Dues (.notify point.nextTicket notice : Act M E K) := by
    cases notice with
    | cancel => exact hnotice.elim
    | run code => exact .notify _ hnotice
  split at h
  · cases h
  · cases h
    exact ⟨_, rfl, (numbered (howned.phase.postpone (.ending _ _) hnotice)).answer hstack .done trivial⟩
  · split at h
    · rename_i hended
      cases h
      rw [if_pos hended]
      refine ⟨_, rfl, (numbered howned.phase).acts hstack ?_ trivial⟩
      simpa using ⟨howned.report _ _, hnotify⟩
    · rename_i hended
      rw [if_neg hended]
      split at h <;> cases h
      · rename_i hinterest
        rw [if_pos hinterest]
        exact ⟨_, rfl, (numbered (howned.phase.join (.ending _ _) hnotice)).answer hstack .done trivial⟩
      · rename_i hinterest
        rw [if_neg hinterest]
        refine ⟨_, rfl, (numbered howned.phase).acts hstack ?_ trivial⟩
        simpa using hnotify

theorem World.push_together {event : Event M E} (h : w.push t stack r.point point event = some m) :
    ∃ m', w'.push t stack' r.point point event = some m' ∧ r.Moves w w' m m' := by
  unfold push at h ⊢
  split at h
  · cases h
  · cases h
    exact ⟨_, rfl, (hw.setPhase (howned.phase.postpone (.push event) trivial)).answer hstack .done trivial⟩
  · split at h <;> cases h
    · rename_i hended
      rw [if_pos hended]
      refine ⟨_, rfl, hw.together.acts hstack ?_ trivial⟩
      simpa using howned.report _ _
    · rename_i hended
      rw [if_neg hended]
      exact ⟨_, rfl, (hw.setPhase (howned.phase.openPass t event)).serve hstack⟩

theorem World.poke_together :
    r.Moves w w' (w.poke stack r.point point) (w'.poke stack' r.point point) := by
  unfold poke
  split
  · exact hw.together.answer hstack .done trivial
  · split
    · rename_i code hcode
      refine hw.together.acts hstack ?_ trivial
      simpa using .run (howned.pokeHandler code hcode)
    · refine hw.together.acts hstack ?_ trivial
      simpa using howned.report _ _

end

theorem Client.Keeps.controls (h : client.Keeps r) {code : K} (hcode : r.owns code) :
    r.Controls (.eval ((client.routine code).bind fun _ => .ret .done))
      (.eval ((client.routine code).bind fun _ => .ret .done)) :=
  .eval ((h.routine code hcode).bind fun _ _ => .ret trivial)

section
variable (hkeeps : client.Keeps r) (hw : r.Worlds w w')
include hkeeps hw

theorem World.perform_together (hstack : List.Forall₂ r.Frames stack stack')
    (halive : w.isAlive r.point = w'.isAlive r.point) (hop : r.Admits op)
    (h : w.perform client t stack op = some m) :
    ∃ m', w'.perform client t stack' op = some m' ∧ r.Moves w w' m m' := by
  obtain ⟨point, hp, hp', howned⟩ := hw.point
  cases hop with
  | release =>
    cases h
    refine ⟨_, rfl, (hw.modify ?_).answer hstack .done trivial⟩
    exact fun _ howned => ⟨howned.sink, howned.phase, howned.pokeHandler⟩
  | inspect =>
    simp only [perform, hp, hp'] at h ⊢
    cases h
    exact ⟨_, rfl, hw.together.answer hstack _ ⟨rfl, howned.sink⟩⟩
  | register interest hcode =>
    simp only [perform, hp, hp'] at h ⊢
    exact register_together hw hstack howned hcode h
  | @unregister handle hhandle =>
    simp only [perform] at h ⊢
    cases hpoint : handle.point with
    | none =>
      simp only [hpoint] at h ⊢
      cases h
      exact ⟨_, rfl, hw.together.answer hstack .done trivial⟩
    | some p =>
      obtain rfl := hhandle p hpoint
      simp only [hpoint, hp, hp'] at h ⊢
      exact unregister_together hw hstack howned halive h
  | atEnd hcode =>
    simp only [perform, hp, hp'] at h ⊢
    exact atEnd_together hw hstack howned hcode h
  | push event =>
    simp only [perform, hp, hp'] at h ⊢
    exact push_together hw hstack howned h
  | poke =>
    simp only [perform, hp, hp'] at h ⊢
    cases h
    exact ⟨_, rfl, poke_together hw hstack howned⟩
  | answerPoke hcode =>
    cases h
    refine ⟨_, rfl, (hw.modify ?_).answer hstack .done trivial⟩
    refine fun _ howned => ⟨howned.sink, howned.phase, ?_⟩
    intro code heq
    exact Option.some.inj heq ▸ hcode
  | emit kind label reason =>
    simp only [perform, hp, hp'] at h ⊢
    cases h
    refine ⟨_, rfl, hw.together.acts hstack ?_ trivial⟩
    simpa using .report kind label reason howned.sink
  | report kind label reason hsink =>
    cases h
    exact ⟨_, rfl, hw.together, .act (.report kind label reason hsink), hstack⟩
  | attempt hcode =>
    cases h
    exact ⟨_, rfl, hw.together, hkeeps.controls hcode, .cons .catching hstack⟩

/-! ### All steps -/

theorem World.act_together {act : Act M E K} (hstack : List.Forall₂ r.Frames stack stack')
    (hact : r.Dues act) : r.Moves w w' (w.act client stack act) (w'.act client stack' act) := by
  cases hact with
  | report kind label reason hsink =>
    exact ⟨⟨⟨hw.point, hw.view, hw.tasks⟩, ⟨fun _ _ => rfl, rfl, rfl⟩,
      ⟨fun _ _ => rfl, rfl, rfl⟩, rfl, rfl⟩, .deliver kind label reason _ _ hsink, hstack⟩
  | present event hcode =>
    exact ⟨hw.together, .eval ((hkeeps.observer _ hcode event).bind fun _ _ => .ret trivial), hstack⟩
  | notify ticket hcode => exact ⟨hw.together, hkeeps.controls hcode, hstack⟩
  | run hcode => exact ⟨hw.together, hkeeps.controls hcode, hstack⟩

theorem World.deliver_together {sink : Sink K} {kind : Kind} {label reason : Option String} {seq seq' : Nat}
    (hstack : List.Forall₂ r.Frames stack stack') (hsink : sink.Owned r.owns) :
    r.Moves w w' (w.deliver client stack sink ⟨kind, label, reason, seq⟩)
      (w'.deliver client stack' sink ⟨kind, label, reason, seq'⟩) := by
  cases hsink with
  | client name hcode =>
    refine ⟨hw.together, .eval ?_, .cons .receiving hstack⟩
    exact (hkeeps.sink _ hcode kind label reason seq seq').bind fun _ _ => .ret trivial
  | recorder =>
    refine ⟨⟨⟨hw.point, ?_, hw.tasks⟩, ?_, ?_, rfl, rfl⟩, .resume trivial, hstack⟩
    · exact ((hkeeps.record _ _).1.trans hw.view).trans (hkeeps.record _ _).1.symm
    · exact ⟨fun _ _ => rfl, (hkeeps.record _ _).2, rfl⟩
    · exact ⟨fun _ _ => rfl, (hkeeps.record _ _).2, rfl⟩
  | set hmembers =>
    exact ⟨hw.together, .resume trivial, .cons (.fanOut none 0 kind label reason seq seq' hmembers) hstack⟩

end

section
variable (hw : r.Worlds w w') (hstack : List.Forall₂ r.Frames stack stack')
include hw hstack

theorem World.eval_together {code code' : Code M E K H (Reply M K)}
    (hcode : r.Agree r.Answers code code') :
    r.Moves w w' (w.eval stack code) (w'.eval stack' code') := by
  cases hcode with
  | ret hreply => exact hw.together.answer hstack _ hreply
  | panic payload => exact ⟨hw.together, .unwind payload, hstack⟩
  | host hchange hrest hrest' hnext =>
    refine ⟨⟨⟨hw.point, hchange _ _ hw.view, hw.tasks⟩, ?_, ?_, rfl, rfl⟩, .eval (hnext _ _ hw.view),
      hstack⟩
    · exact ⟨fun _ _ => rfl, hrest _, rfl⟩
    · exact ⟨fun _ _ => rfl, hrest' _, rfl⟩
  | call hop hnext => exact ⟨hw.together, .perform hop, .cons (.caller hnext) hstack⟩

theorem World.serve_together (howned : point.Owned r.owns) :
    r.Moves w w' (w.serve t stack r.point point) (w'.serve t stack' r.point point) := by
  have hserving : List.Forall₂ r.Frames (.serving r.point :: stack) (.serving r.point :: stack') :=
    .cons .serving hstack
  cases hdue : point.phase.due with
  | some turn =>
    obtain ⟨entry, event⟩ := turn
    have hentry := howned.phase.due hdue
    rw [serve_of_due hdue, serve_of_due hdue]
    unfold offer
    split
    · refine ⟨hw.together, .act ?_, .cons .delivering hserving⟩
      cases entry with
      | observer => exact .present event hentry
      | ending ticket notice =>
        cases notice with
        | cancel => exact hentry.elim
        | run code => exact .notify ticket hentry
    · exact (hw.setPhase (howned.phase.advance true)).answer hserving .done trivial
  | none =>
    unfold serve
    dsimp only
    cases hphase : point.phase with
    | listening => exact hw.together.answer hstack .done trivial
    | dispatching owner pass =>
      have hcommit := hw.setPhase ((hphase ▸ howned.phase).commit t)
      have hwaiting : pass.waiting = [] := by simpa [hphase, Phase.due] using hdue
      simp only [hwaiting]
      by_cases hopen : (pass.commit t).isListening
      · simpa only [hopen, if_true] using hcommit.answer hstack .done trivial
      · simpa only [hopen, Bool.false_eq_true, if_false] using hcommit.answer hserving .done trivial
    | ended farewell =>
      have hwaiting : farewell.waiting = [] := by simpa [hphase, Phase.due] using hdue
      simp only [hwaiting]
      cases farewell.late with
      | nil => exact hw.together.answer hstack .done trivial
      | cons dropped late =>
        exact ⟨hw.setPhase (hphase ▸ howned.phase.dropLate), .act (howned.report _ _), hserving⟩

theorem World.resume_together {frame frame' : Frame M E K H} {reply : Reply M K}
    (hframe : r.Frames frame frame') (hreply : r.Answers reply) :
    r.Moves w w' (w.resume client t stack reply frame) (w'.resume client t stack' reply frame') := by
  obtain ⟨point, hp, hp', howned⟩ := hw.point
  cases hframe with
  | caller hnext => exact ⟨hw.together, .eval (hnext reply hreply), hstack⟩
  | @acts todo answer htodo hanswer =>
    cases todo with
    | nil => exact hw.together.answer hstack _ hanswer
    | cons first todo =>
      rw [List.forall_mem_cons] at htodo
      exact ⟨hw.together, .act htodo.1, .cons (.acts htodo.2 hanswer) hstack⟩
  | serving =>
    simp only [resume, hp, hp']
    exact serve_together hw hstack howned
  | delivering =>
    simp only [resume, hp, hp']
    exact (hw.setPhase (howned.phase.advance _)).answer hstack .done trivial
  | receiving => exact hw.together.answer hstack .done trivial
  | @fanOut members skip next kind label reason seq seq' hmembers =>
    simp only [resume]
    cases hsink : members[next]? with
    | none => exact hw.together.answer hstack .done trivial
    | some sink =>
      have hrest := List.Forall₂.cons
        (Realm.Frames.fanOut skip (next + 1) kind label reason seq seq' hmembers) hstack
      dsimp only
      split
      · exact hw.together.answer hrest .done trivial
      · refine ⟨hw.together, .deliver kind label reason seq seq' ?_, hrest⟩
        exact hmembers sink (List.mem_of_getElem? hsink)
  | catching => exact hw.together.answer hstack (.caught none) trivial

theorem World.unwind_together {frame frame' : Frame M E K H} {payload : Payload}
    (hframe : r.Frames frame frame') :
    r.Moves w w' (w.unwind client stack payload frame) (w'.unwind client stack' payload frame') := by
  obtain ⟨point, hp, hp', howned⟩ := hw.point
  cases hframe with
  | delivering =>
    simp only [unwind, hp, hp']
    exact ⟨hw.setPhase (howned.phase.advance false), .act (howned.report _ _), hstack⟩
  | @fanOut members skip next kind label reason seq seq' hmembers =>
    have hrest := List.Forall₂.cons
      (Realm.Frames.fanOut skip next kind label reason seq seq' hmembers) hstack
    simp only [unwind]
    split
    · exact hw.together.answer hrest .done trivial
    · refine ⟨⟨⟨hw.point, hw.view, hw.tasks⟩, ⟨fun _ _ => rfl, rfl, rfl⟩,
        ⟨fun _ _ => rfl, rfl, rfl⟩, rfl, rfl⟩, .resume trivial, .cons (.fanOut _ 0 _ _ _ _ _ hmembers) hrest⟩
  | catching => exact hw.together.answer hstack (.caught (some payload)) trivial
  | _ => exact ⟨hw.together, .unwind payload, hstack⟩

end

/-- Two exchanges that look the same from within a realm go on in the same way there. -/
theorem World.move_together (hkeeps : client.Keeps r) (hw : r.Worlds w w')
    (halive : w.isAlive r.point = w'.isAlive r.point) (hcontrol : r.Controls control control')
    (hstack : List.Forall₂ r.Frames stack stack') (hm : w.move client t stack control = some m) :
    ∃ m', w'.move client t stack' control' = some m' ∧ r.Moves w w' m m' := by
  cases hcontrol with
  | eval hcode => exact ⟨_, rfl, Option.some.inj hm ▸ eval_together hw hstack hcode⟩
  | perform hop => exact perform_together hkeeps hw hstack halive hop hm
  | act hact => exact ⟨_, rfl, Option.some.inj hm ▸ act_together hkeeps hw hstack hact⟩
  | deliver kind label reason seq seq' hsink =>
    exact ⟨_, rfl, Option.some.inj hm ▸ deliver_together hkeeps hw hstack hsink⟩
  | resume hreply =>
    cases hstack with
    | nil => cases hm
    | cons hframe hstack =>
      exact ⟨_, rfl, Option.some.inj hm ▸ resume_together hw hstack hframe hreply⟩
  | unwind payload =>
    cases hstack with
    | nil => cases hm
    | cons hframe hstack => exact ⟨_, rfl, Option.some.inj hm ▸ unwind_together hw hstack hframe⟩

end

end Exchange
