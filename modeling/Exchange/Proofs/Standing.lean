import Exchange.Proofs.Stride

/-!
A point by itself: its phase, how far the call is that serves it, and how these change. Every change
leaves its happenings in the history of the point; a course is a history with the standing to which
it leads. What is claimed of histories is proved of courses, where there are no threads and no
stacks.
-/

namespace Exchange
set_option autoImplicit false

variable {M E K H : Type}

/-- How far the call is that serves a point. -/
inductive Service where
  /-- No call serves the point. -/
  | idle
  /-- No entry has its turn. -/
  | between
  /-- An entry is about to be given the event. -/
  | calling
  /-- An entry has its turn. -/
  | engaged
deriving DecidableEq

structure Standing (M E K : Type) where
  phase : Phase M E K
  service : Service
  nextId : Nat
  nextTicket : Nat

/-- A point to which nothing has happened. -/
def Standing.initial : Standing M E K := ⟨.listening [], .idle, 1, 0⟩

def World.standing (w : World M E K H) (p : Nat) (service : Service) : Standing M E K :=
  ⟨w.phase p, service, w.nextId p, w.nextTicket p⟩

namespace Happening

/-- The standing of the point has no part in it. -/
def IsAside : Happening M E K → Prop
  | .reported _ _ | .emitted _ _ | .presented _ _ _ .call | .notified _ _ .call => True
  | _ => False

theorem IsAside.eq {happening : Happening M E K} (h : happening.IsAside) :
    (∃ kind reason, happening = .reported kind reason) ∨
    (∃ kind reason, happening = .emitted kind reason) ∨
    (∃ id code event, happening = .presented id code event .call) ∨
    ∃ n notice, happening = .notified n notice .call := by
  cases happening with
  | presented id code event occasion => cases occasion <;> first | exact h.elim | simp
  | notified n notice occasion => cases occasion <;> first | exact h.elim | simp
  | _ => first | exact h.elim | simp

end Happening

/-- What happens when the entry is given the event. -/
def Entry.given (event : Event M E) (occasion : Occasion) : Entry K → Happening M E K
  | .observer id _ code => .presented id code event occasion
  | .ending ticket notice => .notified ticket notice occasion

/-- The changes of a point, with what happens. -/
inductive Change : Standing M E K → List (Happening M E K) → Standing M E K → Prop
  | rests {s} : Change s [] s
  | aside {s happening} : happening.IsAside → Change s [happening] s
  -- calls on an open point
  | registers {entries i n} (interest : Interest) (code : K) :
      Change ⟨.listening entries, .idle, i, n⟩ [.registered i interest code]
        ⟨.listening (entries ++ [.observer i interest code]), .idle, i + 1, n⟩
  | awaits {entries i n} (notice : Notice K) : heldOpen entries →
      Change ⟨.listening entries, .idle, i, n⟩ [.awaited n notice .taken]
        ⟨.listening (entries ++ [.ending n notice]), .idle, i, n + 1⟩
  | awaitsNothing {entries i n} (notice : Notice K) : ¬heldOpen entries →
      Change ⟨.listening entries, .idle, i, n⟩ [.awaited n notice .atOnce]
        ⟨.listening entries, .idle, i, n + 1⟩
  | unregisters {entries i n} (id : Nat) : heldOpen (without id entries) →
      Change ⟨.listening entries, .idle, i, n⟩ [.unregistered id]
        ⟨.listening (without id entries), .idle, i, n⟩
  | unregistersLast {entries i n} (id : Nat) : ¬heldOpen (without id entries) →
      Change ⟨.listening entries, .idle, i, n⟩
        [.unregistered id, .ended .tombstone (without id entries)]
        ⟨.ended ⟨.tombstone, without id entries, []⟩, .between, i, n⟩
  | pushes {entries i n} (t : Nat) (event : Event M E) :
      Change ⟨.listening entries, .idle, i, n⟩ [.pushed event .taken, .begun event entries]
        ⟨.dispatching t { event, waiting := entries }, .between, i, n⟩
  -- calls from inside a pass
  | awaitsInside {t pass v i n} (notice : Notice K) :
      Change ⟨.dispatching t pass, v, i, n⟩ [.awaited n notice .putOff]
        ⟨.dispatching t { pass with postponed := pass.postponed ++ [.ending n notice] }, v, i,
          n + 1⟩
  | unregistersInside {t pass v i n} (id : Nat) :
      Change ⟨.dispatching t pass, v, i, n⟩ [.unregistered id]
        ⟨.dispatching t { pass with postponed := pass.postponed ++ [.unregister id] }, v, i, n⟩
  | pushesInside {t pass v i n} (event : Event M E) :
      Change ⟨.dispatching t pass, v, i, n⟩ [.pushed event .putOff]
        ⟨.dispatching t { pass with postponed := pass.postponed ++ [.push event] }, v, i, n⟩
  -- calls on a point that has ended
  | awaitsLate {farewell v i n} (notice : Notice K) :
      Change ⟨.ended farewell, v, i, n⟩ [.awaited n notice .late] ⟨.ended farewell, v, i, n + 1⟩
  | unregistersLate {farewell v i n} (id : Nat) :
      Change ⟨.ended farewell, v, i, n⟩ [.unregistered id] ⟨.ended farewell, v, i, n⟩
  | pushesLate {farewell v i n} (event : Event M E) :
      Change ⟨.ended farewell, v, i, n⟩ [.pushed event .late] ⟨.ended farewell, v, i, n⟩
  -- turns
  | calls {phase i n entry event} : phase.due = some (entry, event) → entry.heeds event →
      Change ⟨phase, .between, i, n⟩ [] ⟨phase, .calling, i, n⟩
  | skips {phase i n entry event} : phase.due = some (entry, event) → ¬entry.heeds event →
      Change ⟨phase, .between, i, n⟩ [] ⟨phase.advance true, .between, i, n⟩
  | gives {phase i n entry event} : phase.due = some (entry, event) →
      Change ⟨phase, .calling, i, n⟩ [entry.given event phase.occasion] ⟨phase, .engaged, i, n⟩
  | leaves {phase i n entry event} (stays : Bool) : phase.due = some (entry, event) →
      (stays → ¬entry.isEnding) →
      Change ⟨phase, .engaged, i, n⟩ [.left entry stays] ⟨phase.advance stays, .between, i, n⟩
  -- after the last turn
  | reopens {t pass i n entries} : pass.waiting = [] → pass.commit t = .listening entries →
      Change ⟨.dispatching t pass, .between, i, n⟩ [] ⟨.listening entries, .idle, i, n⟩
  | goesOn {t pass i n t' next} : pass.waiting = [] → pass.commit t = .dispatching t' next →
      Change ⟨.dispatching t pass, .between, i, n⟩ [.begun next.event next.waiting]
        ⟨.dispatching t' next, .between, i, n⟩
  | ends {t pass i n farewell} : pass.waiting = [] → pass.commit t = .ended farewell →
      Change ⟨.dispatching t pass, .between, i, n⟩ [.ended farewell.event farewell.waiting]
        ⟨.ended farewell, .between, i, n⟩
  | drops {last event late i n} :
      Change ⟨.ended ⟨last, [], event :: late⟩, .between, i, n⟩ [.dropped event]
        ⟨.ended ⟨last, [], late⟩, .between, i, n⟩
  | retires {last i n} :
      Change ⟨.ended ⟨last, [], []⟩, .between, i, n⟩ [] ⟨.ended ⟨last, [], []⟩, .idle, i, n⟩

/-- A history that leads from one standing to another. -/
inductive Course (start : Standing M E K) : List (Happening M E K) → Standing M E K → Prop
  | refl : Course start [] start
  | step {history happenings s s'} : Course start history s → Change s happenings s' →
      Course start (history ++ happenings) s'

namespace Standing

/-- An open point is served by nobody, a pass by somebody; nobody leaves a point that has ended
before all is told; and whoever has a turn, it is the next entry's. -/
structure Coherent (s : Standing M E K) : Prop where
  listening : ∀ entries, s.phase = .listening entries → s.service = .idle
  dispatching : ∀ t pass, s.phase = .dispatching t pass → s.service ≠ .idle
  ended : ∀ farewell, s.phase = .ended farewell → s.service = .idle →
    farewell.waiting = [] ∧ farewell.late = []
  turn : s.service = .calling ∨ s.service = .engaged →
    ∃ entry event, s.phase.due = some (entry, event) ∧ entry.heeds event

theorem initial_coherent : (initial : Standing M E K).Coherent := by
  constructor <;> simp [initial]

end Standing

theorem Phase.ne_listening_of_due {phase : Phase M E K} {entry : Entry K} {event : Event M E}
    (h : phase.due = some (entry, event)) (entries : List (Entry K)) :
    phase ≠ .listening entries := by
  rintro rfl
  cases h

theorem Phase.advance_ne_listening {phase : Phase M E K} {entry : Entry K} {event : Event M E}
    {stays : Bool} (h : phase.due = some (entry, event)) (entries : List (Entry K)) :
    phase.advance stays ≠ .listening entries := by
  cases phase <;> simp_all [Phase.due, Phase.advance]

theorem Standing.Coherent.postponed {t i n n' : Nat} {v : Service} {pass : Pass M E K}
    {calls : List (Postponed M E K)} (hs : Coherent ⟨.dispatching t pass, v, i, n⟩) :
    Coherent ⟨.dispatching t { pass with postponed := calls }, v, i, n'⟩ := by
  refine ⟨by simp, ?_, by simp, ?_⟩
  · intro _ _ _
    exact hs.dispatching _ _ rfl
  · intro hturn
    simpa [Phase.due] using hs.turn hturn

theorem Change.coherent {s s' : Standing M E K} {happenings : List (Happening M E K)}
    (h : Change s happenings s') (hs : s.Coherent) : s'.Coherent := by
  cases h with
  | rests => exact hs
  | aside => exact hs
  | calls hdue hheeds =>
    refine ⟨?_, by simp, by simp, ?_⟩
    · intro entries hphase
      exact absurd hphase (Phase.ne_listening_of_due hdue entries)
    · intro _
      exact ⟨_, _, hdue, hheeds⟩
  | skips hdue =>
    refine ⟨?_, by simp, by simp, by simp⟩
    intro entries hphase
    exact absurd hphase (Phase.advance_ne_listening hdue entries)
  | gives hdue =>
    refine ⟨?_, by simp, by simp, ?_⟩
    · intro entries hphase
      exact absurd hphase (Phase.ne_listening_of_due hdue entries)
    · intro _
      exact hs.turn (.inl rfl)
  | leaves _ hdue =>
    refine ⟨?_, by simp, by simp, by simp⟩
    intro entries hphase
    exact absurd hphase (Phase.advance_ne_listening hdue entries)
  | awaitsInside => exact hs.postponed
  | unregistersInside => exact hs.postponed
  | pushesInside => exact hs.postponed
  | awaitsLate => exact ⟨by simp, by simp, hs.ended, hs.turn⟩
  | unregistersLate => exact hs
  | pushesLate => exact hs
  | _ => constructor <;> simp

namespace Course
variable {start s : Standing M E K} {history : List (Happening M E K)}

theorem coherent (h : Course start history s) (hs : start.Coherent) : s.Coherent := by
  induction h with
  | refl => exact hs
  | step _ hc ih => exact hc.coherent ih

theorem trans {s' : Standing M E K} {later : List (Happening M E K)} (h : Course start history s)
    (hlater : Course s later s') : Course start (history ++ later) s' := by
  induction hlater with
  | refl => simpa using h
  | step _ hc ih =>
    rw [← List.append_assoc]
    exact ih.step hc

/-- Whatever has happened has happened in some step, from where the course went on. -/
theorem split (h : Course start history s) {early late : List (Happening M E K)}
    {happening : Happening M E K} (heq : history = early ++ happening :: late) :
    ∃ before now first last now' after,
      Course start before now ∧ Change now (first ++ happening :: last) now' ∧
        Course now' after s ∧ early = before ++ first ∧ late = last ++ after := by
  induction h generalizing late with
  | refl => simp at heq
  | step course hchange ih =>
    rcases List.append_eq_append_iff.mp heq with ⟨first, rfl, rfl⟩ | ⟨rest, rfl, hrest⟩
    · exact ⟨_, _, first, late, _, [], course, hchange, .refl, rfl, by simp⟩
    · cases rest with
      | nil =>
        rw [List.nil_append] at hrest
        exact ⟨_, _, [], late, _, [], course, hrest ▸ hchange, .refl, by simp, by simp⟩
      | cons other rest =>
        obtain ⟨rfl, rfl⟩ := List.cons.inj hrest
        obtain ⟨before, now, first, last, now', after, hbefore, hnow, hafter, rfl, rfl⟩ := ih rfl
        exact ⟨before, now, first, last, now', _, hbefore, hnow, hafter.step hchange, rfl, by simp⟩

end Course
end Exchange
