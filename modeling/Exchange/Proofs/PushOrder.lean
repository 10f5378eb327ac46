import Exchange.Proofs.Call
import Exchange.Proofs.Enactment
import Exchange.Proofs.Keeping
import Exchange.Proofs.Queue

/-!
The events pushed on a point are delivered in the order of the pushes, in one pass each, until the
point ends; those left over and those that come later are reported as late, each once, and reach no
observer.
-/

namespace Exchange
set_option autoImplicit false

variable {M E K H : Type} {client : Client M E K H} {w w' : World M E K H} {p : Nat}

/-! ## Reports of late events -/

/-- The reason that is promised to be reported, if an event is. -/
def Promise.reason? : Promise → Option (Option String)
  | .late reason => some reason
  | .notice _ => none

namespace Happening

/-- The reason of a diagnostic about a late event. -/
def reportsLate? : Happening M E K → Option (Option String)
  | .reported kind reason => if kind = .lateEvent then some reason else none
  | _ => none

/-- The reason of such a diagnostic for which the client itself asks. -/
def emitsLate? : Happening M E K → Option (Option String)
  | .emitted kind reason => if kind = .lateEvent then some reason else none
  | _ => none

def isPutOff : Happening M E K → Bool
  | .pushed _ .putOff => true
  | _ => false

end Happening

theorem filterMap_keeps (history : List (Happening M E K)) :
    (history.flatMap Happening.keeps).filterMap Promise.reason? =
      history.filterMap Happening.reportsLate? := by
  induction history with
  | nil => rfl
  | cons happening history ih =>
    rw [List.flatMap_cons, List.filterMap_append, ih]
    cases happening with
    | notified _ _ occasion => cases occasion <;> rfl
    | reported kind reason =>
      by_cases hkind : kind = .lateEvent <;> simp [Happening.reportsLate?, Promise.reason?, hkind]
    | _ => rfl

theorem Happening.promises_late (happening : Happening M E K) :
    happening.promises.filterMap Promise.reason? =
      (droppedEvents [happening] ++ refusedEvents [happening]).map
        (fun event => some event.lateName) ++
        [happening].filterMap Happening.emitsLate? := by
  cases happening with
  | awaited _ _ reception => cases reception <;> rfl
  | pushed _ reception => cases reception <;> rfl
  | emitted kind reason =>
    by_cases hkind : kind = .lateEvent
    · subst hkind
      rfl
    · simp [hkind, droppedEvents, refusedEvents, Happening.drops?, Happening.refuses?,
        Happening.emitsLate?]
  | _ => rfl

/-- What is promised to be reported are the events dropped and refused, and what the client asks
for. -/
theorem filterMap_promises (history : List (Happening M E K)) :
    ((history.flatMap Happening.promises).filterMap Promise.reason?).Perm
      ((droppedEvents history ++ refusedEvents history).map (fun event => some event.lateName) ++
        history.filterMap Happening.emitsLate?) := by
  apply List.perm_iff_count.mpr
  intro reason
  induction history with
  | nil => rfl
  | cons happening history ih =>
    have hcons : happening :: history = [happening] ++ history := rfl
    rw [List.flatMap_cons, List.filterMap_append, happening.promises_late, List.count_append, ih,
      hcons, droppedEvents_append, refusedEvents_append, List.filterMap_append]
    simp only [List.map_append, List.count_append]
    omega

/-! ## Observers that come too late -/

/-- A call itself gives an observer at most the tombstone. -/
theorem Moment.presented_call {moment : Moment M E K H} (hd : moment.thread.Disciplined) {id : Nat}
    {code : K} {event : Event M E} (h : .presented id code event .call ∈ moment.happenings p) :
    event = .tombstone := by
  obtain ⟨due, hcontrol, h⟩ := act_of_deed h rfl
  have hfits := hd.fits
  rw [hcontrol] at hfits
  cases due with
  | present code' event' =>
    simp only [World.does] at h
    split at h
    · -- a frame that delivers has an occasion of its own
      split at h <;> (try split at h) <;> simp only [List.mem_singleton, List.not_mem_nil] at h
      cases hphase : moment.world.phase p <;> simp [hphase, Phase.occasion] at h
    · rename_i hframe
      split at h
      · simp only [List.mem_singleton, Happening.presented.injEq] at h
        obtain ⟨-, hcode, hevent, -⟩ := h
        exact hfits.2.2.1 _ _ _ code event hframe (by rw [hcode, hevent])
      · cases h
    · cases h
  | report =>
    simp only [World.does] at h
    split at h <;> simp at h
  | notify =>
    simp only [World.does] at h
    repeat' split at h
    all_goals simp at h
  | _ => cases h

/-- Whoever is given an event that is no event of a pass is given the tombstone. -/
theorem Run.presented {host : H} {trail : List (Moment M E K H)}
    (run : Run client (.initial host) trail w) (hr : SinksReturn trail) {id : Nat} {code : K}
    {event : Event M E} (h : .presented id code event .call ∈ history p trail) :
    event = .tombstone := by
  induction run with
  | refl => cases h
  | step run ht _ ih =>
    obtain ⟨hr, -⟩ := sinksReturn_append.mp hr
    rw [history_append] at h
    rcases List.mem_append.mp h with h | h
    · exact ih hr h
    · obtain ⟨moment, hmoment, h⟩ := List.mem_flatMap.mp h
      obtain rfl := List.mem_singleton.mp hmoment
      have hw := run.sound (World.initial_sound host) hr
      exact Moment.presented_call (hw.disciplined _ (World.mem_of_thread? ht)) h
  | between _ _ ih => exact ih hr h

/-! ## Calls that serve a point -/

section
variable {t : Nat} {below : List (Frame M E K H)} {point : Point M E K}

theorem Stride.of_serving {control : Control M E K H} {m : Move M E K H} {n : Nat}
    (h : Stride client w t control (.serving p :: below) m)
    (hd : Thread.Disciplined ⟨n, control, .serving p :: below⟩) (hreturn : control.IsReturn) :
    (∃ above, m.stack = above ++ .serving p :: below) ∨
      (m.stack = below ∧ m.control = .resume .done) := by
  cases h with
  | gives => exact .inl ⟨[_], rfl⟩
  | advances => exact .inl ⟨[], rfl⟩
  | drops => exact .inl ⟨[], rfl⟩
  | retires => exact .inr ⟨rfl, rfl⟩
  | unwinds => exact absurd trivial (hd.fits _ rfl)
  | fansOn _ _ _ hf => exact hf.elim
  | handsOn _ _ hf => exact hf.elim
  | pops _ _ _ hplain => exact hplain.elim
  | _ => exact hreturn.elim

/-- What stands above a call that serves a point changes; the call itself stays until it is back. -/
theorem Stride.above_serving {control : Control M E K H} {m : Move M E K H} {n : Nat}
    {above : List (Frame M E K H)} (h : Stride client w t control (above ++ .serving p :: below) m)
    (hd : Thread.Disciplined ⟨n, control, above ++ .serving p :: below⟩) :
    (∃ above', m.stack = above' ++ .serving p :: below) ∨
      (m.stack = below ∧ m.control = .resume .done) := by
  obtain ⟨gone, come, rest, shape⟩ := h.shape hd.stacked.seated
  rcases shape.popped with rfl | ⟨hreturn, top, rfl⟩
  · obtain rfl : _ = rest := shape.before
    exact .inl ⟨come ++ above, by rw [shape.after, List.append_assoc]⟩
  · cases above with
    | nil =>
      -- the frame that serves the point is on top
      exact h.of_serving hd hreturn
    | cons frame above =>
      obtain ⟨rfl, rfl⟩ := List.cons.inj shape.before
      exact .inl ⟨come ++ above, by rw [shape.after, List.append_assoc]; rfl⟩

/-- Until a call that serves a point is back, its frame stands above the frames below; no panic comes
back. -/
theorem Call.serving {op : Op M E K} {start : World M E K H} {during : List (Moment M E K H)}
    (call : Call client t below op start during w) (hw : start.Sound) (hr : SinksReturn during)
    (hfirst : ∀ m, start.perform client t below op = some m → m.stack = .serving p :: below) :
    w.thread? t = some ⟨t, .resume .done, below⟩ ∨
      ∃ control above, w.thread? t = some ⟨t, control, above ++ .serving p :: below⟩ := by
  have hholds : ∃ thread, w.thread? t = some thread ∧ (thread = ⟨t, .resume .done, below⟩ ∨
      ∃ control above, thread = ⟨t, control, above ++ .serving p :: below⟩) := by
    refine call.invariant hw hr (fun _ thread => thread = ⟨t, .resume .done, below⟩ ∨
      ∃ control above, thread = ⟨t, control, above ++ .serving p :: below⟩) ?_ ?_ ?_ ?_
    · intro m hm
      exact .inr ⟨m.control, [], by rw [hfirst m hm, List.nil_append]⟩
    · rintro _ v control _ m (h | ⟨_, above, h⟩) hback hd _ hstride
      · cases h
        exact absurd ⟨rfl, trivial⟩ hback
      · cases h
        rcases hstride.above_serving hd with ⟨above, habove⟩ | ⟨hstack, hdone⟩
        · exact .inr ⟨m.control, above, by rw [habove]⟩
        · exact .inl (by rw [hstack, hdone])
    · intro _ _ _ h _
      exact h
    · rintro _ _ (rfl | ⟨control, above, rfl⟩) hback
      · exact absurd ⟨rfl, trivial⟩ hback
      · simp
  obtain ⟨thread, hthread, rfl | ⟨control, above, rfl⟩⟩ := hholds
  · exact .inl hthread
  · exact .inr ⟨control, above, hthread⟩

/-- While a call serves the point nobody else's push takes effect at once. -/
theorem Change.acceptedEvents_le {s s' : Standing M E K} {happenings : List (Happening M E K)}
    (h : Change s happenings s') (hs : s.service ≠ .idle) :
    (acceptedEvents happenings).length ≤ happenings.countP Happening.isPutOff := by
  cases h with
  | pushes => exact absurd rfl hs
  | pushesInside => exact Nat.le_refl 1
  | aside ha =>
    rcases ha.eq with ⟨_, _, rfl⟩ | ⟨_, _, rfl⟩ | ⟨_, _, _, rfl⟩ | ⟨_, _, rfl⟩ <;>
      exact Nat.zero_le _
  | @gives _ _ _ entry => cases entry <;> exact Nat.zero_le _
  | _ => exact Nat.zero_le _

/-- While a push on an open point lasts, no other push is accepted but those put off. -/
theorem Call.push_accepts {event : Event M E} {during : List (Moment M E K H)}
    {s : Standing M E K} {entries : List (Entry K)}
    (call : Call client t below (.push p event) w during w') (hw : w.Sound)
    (hr : SinksReturn during) (hs : w.Stands p s) (hc : s.Coherent)
    (hp : w.points[p]? = some point) (hopen : point.phase = .listening entries) :
    ∃ s', Course s (history p during) s' ∧ w'.Stands p s' ∧
      (acceptedEvents (history p during)).length ≤
        1 + (history p during).countP Happening.isPutOff := by
  have hfirst : ∀ m, w.perform client t below (.push p event) = some m →
      m.stack = .serving p :: below := by
    intro m hm
    simp only [World.perform, World.push, hp, hopen, Phase.access, Phase.isEnded] at hm
    cases hm
    rfl
  induction call with
  | made ht hstep =>
    obtain ⟨s', hchange, hs'⟩ := hs.of_step hw hc ht hstep
    refine ⟨s', by simpa [history] using Course.refl.step hchange, hs', ?_⟩
    have hreceived : w.receives p (.push p event) = [.pushed event .taken, .begun event entries] := by
      simp [World.receives, hp, Op.waitsFor?, Point.receives, hopen]
    have hhistory : history p [⟨w, ⟨t, .perform (.push p event), below⟩⟩] =
        [.pushed event .taken, .begun event entries] := (List.append_nil _).trans hreceived
    rw [hhistory]
    exact Nat.le_add_right 1 _
  | @step during w₁ w₂ n thread call hback hn hstep ih =>
    obtain ⟨hr, -⟩ := sinksReturn_append.mp hr
    obtain ⟨s₁, course, hs₁, hle⟩ := ih hr
    obtain ⟨control, above, hcaller⟩ := (call.serving hw hr hfirst).resolve_left
      fun h => hback ⟨_, h, trivial⟩
    have hframe : .serving p ∈ above ++ .serving p :: below :=
      List.mem_append_right _ List.mem_cons_self
    have hserved := hs₁.ne_idle
      ⟨_, World.mem_of_thread? hcaller, _, hframe, by simp [Frame.serves]⟩
    obtain ⟨s₂, hchange, hs₂⟩ := hs₁.of_step (call.run.sound hw hr) (course.coherent hc) hn hstep
    have hone : history p [⟨w₁, thread⟩] = Moment.happenings p ⟨w₁, thread⟩ := List.append_nil _
    have hmore := hchange.acceptedEvents_le hserved
    refine ⟨s₂, ?_, hs₂, ?_⟩
    · rw [history_append, hone]
      exact course.step hchange
    · rw [history_append, hone, acceptedEvents_append, List.length_append, List.countP_append]
      omega
  | between call hback hb ih =>
    obtain ⟨s₁, course, hs₁, hle⟩ := ih hr
    exact ⟨s₁, course, hs₁.of_between (call.run.sound hw hr).orderly hb, hle⟩

/-- A push from outside every pass leads to one pass for itself, and to one at most for each push
put off while it lasts. -/
theorem Call.push_passes {event : Event M E} {during : List (Moment M E K H)} {s : Standing M E K}
    (call : Call client t below (.push p event) w during w') (hw : w.Sound)
    (hr : SinksReturn during) (hs : w.Stands p s) (hc : s.Coherent)
    (hp : w.points[p]? = some point) (houter : ∀ owner pass, point.phase ≠ .dispatching owner pass) :
    (passEvents (history p during)).length ≤ 1 + (history p during).countP Happening.isPutOff := by
  have hphase : s.phase = point.phase := by rw [hs.eq, World.standing_of_getElem? hp]
  cases hopen : point.phase with
  | listening entries =>
    obtain ⟨s', course, -, haccepted⟩ := call.push_accepts hw hr hs hc hp hopen
    have hpasses := course.passEvents_le
    have hnone : s.phase.upcoming = [] := by rw [hphase, hopen, Phase.upcoming]
    rw [hnone, List.length_nil] at hpasses
    omega
  | dispatching owner pass => exact absurd hopen (houter owner pass)
  | ended farewell =>
    obtain ⟨s', course, -⟩ := call.run.course hr hw hs hc
    obtain ⟨-, hnone⟩ := course.passEvents_eq_nil (by rw [hphase, hopen, Phase.isEnded])
    rw [hnone]
    exact Nat.zero_le _

end

/-- Once all calls have returned, the events pushed are those of the passes and then those that came
too late, which have been reported, each once. An observer is given the event of the pass that is
open, or the tombstone. A push from outside every pass leads to one pass at most, and to one at most
for each push put off while it lasts. A pass that begins opens the point: its event is on its way to all
entries of the list. -/
theorem pushes_are_passed_in_order {host : H} {trail : List (Moment M E K H)}
    (run : Run client (.initial host) trail w) (hr : SinksReturn trail) (p : Nat) :
    Enacted client p trail ∧
    (w.IsQuiet → ∃ late, pushEvents (history p trail) = passEvents (history p trail) ++ late ∧
      ((history p trail).filterMap Happening.reportsLate?).Perm
        (late.map (fun event => some event.lateName) ++
          (history p trail).filterMap Happening.emitsLate?)) ∧
    (∀ early later id code event occasion,
      history p trail = early ++ .presented id code event occasion :: later →
      (occasion = .pass ∧ (passEvents early).getLast? = some event) ∨ event = .tombstone) ∧
    (∀ point t below event during w', w.points[p]? = some point →
      (∀ owner pass, point.phase ≠ .dispatching owner pass) →
      Call client t below (.push p event) w during w' → SinksReturn during →
      Enacted client p during ∧ (passEvents (history p during)).length ≤
        1 + (history p during).countP Happening.isPutOff) := by
  have hw := World.initial_sound (M := M) (E := E) (K := K) host
  obtain ⟨s, course, stands⟩ := run.course_of_initial hr p
  refine ⟨run.enacted hr p, ?_, ?_, ?_⟩
  · intro hquiet
    refine ⟨droppedEvents (history p trail) ++ refusedEvents (history p trail), ?_, ?_⟩
    · have hnone := course.upcoming_eq_nil (stands.idle (World.not_isServed_of_isQuiet hquiet))
      rw [course.ordered.order, hnone, List.append_nil]
    · have hkept := run.keeps_promises (p := p) hr
      rw [World.outstanding_of_isQuiet hquiet, List.append_nil] at hkept
      rw [← filterMap_keeps]
      exact (hkept.filterMap _).trans (filterMap_promises _)
  · intro early later id code event occasion heq
    by_cases hcall : occasion = .call
    · subst hcall
      exact .inr (run.presented hr (heq ▸ List.mem_append_right _ List.mem_cons_self))
    · exact course.presented_in_turn heq hcall
  · intro point t below event during w' hp houter call hr'
    have hc := course.coherent Standing.initial_coherent
    exact ⟨run.enacted_later call.run hr hr' p,
      call.push_passes (run.sound hw hr) hr' stands hc hp houter⟩

/-- An observer pushes a final event when it is given the first; then one more event comes, too late. -/
def belated (fuel : Nat) : List (Moment Unit Unit Manner Notes) × World Unit Unit Manner Notes :=
  World.runCalls finishingClient [] [.create "request" .recorder, .register 0 .active .calls,
    .push 0 (.ofResponse () false), .push 0 (.ofResponse () false)] fuel

theorem pushes_are_passed_in_order_noting :
    (Enacted finishingClient 0 (belated 60).1 ∧
      pushEvents (history 0 (belated 60).1) =
        [.ofResponse () false, .ofResponse () true] ++ [.ofResponse () false] ∧
      (history 0 (belated 60).1).filterMap Happening.reportsLate? =
        [some (Event.ofResponse () false : Event Unit Unit).lateName] ∧
      (belated 60).2.host =
        [(.calls, some (.ofResponse () false)), (.calls, some (.ofResponse () true))]) ∧
    ∃ below during w', Call finishingClient 0 below (.push 0 (.ofResponse () false)) (belated 7).2
        during w' ∧ w'.IsBack 0 below ∧
      (passEvents (history 0 during)).length ≤
        1 + (history 0 during).countP Happening.isPutOff := by
  have run (fuel : Nat) : Run finishingClient (.initial []) (belated fuel).1 (belated fuel).2 :=
    World.run_runCalls _ _ _ fuel
  constructor
  · obtain ⟨henacted, h, -, -⟩ := pushes_are_passed_in_order (run 60) (by decide) 0
    obtain ⟨late, horder, hreports⟩ := h (by decide)
    have hpushed : pushEvents (history 0 (belated 60).1) =
        passEvents (history 0 (belated 60).1) ++ [.ofResponse () false] := by decide
    obtain rfl := List.append_cancel_left (horder.symm.trans hpushed)
    exact ⟨henacted, horder, List.perm_singleton.mp hreports, by decide⟩
  · have call := (belated 7).2.call_trace (t := 0) finishingClient 16 rfl (by decide) (by decide)
    obtain ⟨-, -, -, h⟩ := pushes_are_passed_in_order (run 7) (by decide) 0
    obtain ⟨-, hpasses⟩ := h _ 0 _ _ _ _ rfl nofun call (by decide)
    exact ⟨_, _, _, call, ⟨_, rfl, trivial⟩, hpasses⟩

end Exchange
