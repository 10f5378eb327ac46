import Exchange.Proofs.Hands

/-!
One thread from one place to another. Whatever other threads do meanwhile, and whatever comes between
steps, a thread that is in the middle of something is moved by its own steps only; so what these steps keep
holds of it until it is through.
-/

namespace Exchange
set_option autoImplicit false

variable {M E K H : Type} {client : Client M E K H} {start u v w x : World M E K H} {t n : Nat}
  {thread : Thread M E K H}
variable {control : Control M E K H} {stack below : List (Frame M E K H)} {m : Move M E K H}
variable {trail : List (Moment M E K H)}

/-- The moments at which the thread takes its steps. -/
def ownMoments (n : Nat) (trail : List (Moment M E K H)) : List (Moment M E K H) :=
  trail.filter (·.thread.id = n)

theorem ownMoments_snoc_self {moment : Moment M E K H} (h : moment.thread.id = n) :
    ownMoments n (trail ++ [moment]) = ownMoments n trail ++ [moment] := by
  simp [ownMoments, h]

theorem ownMoments_snoc_ne {moment : Moment M E K H} (h : moment.thread.id ≠ n) :
    ownMoments n (trail ++ [moment]) = ownMoments n trail := by
  simp [ownMoments, h]

/-- A thread of which something holds that its own steps keep until it is through is followed along a run:
either it gets through, and the run is cut there, or what holds of it holds in the end. -/
theorem Run.follow (run : Run client start trail w) (hstart : start.Placed)
    (holds : List (Moment M E K H) → Thread M E K H → Prop) (through : Thread M E K H → Prop)
    (hbegin : ∃ thread, start.thread? n = some thread ∧ holds [] thread)
    (hstep : ∀ own v thread m, thread.Placed → holds own thread → ¬through thread → thread.id = n →
      v.move client n thread.stack thread.control = some m →
      holds (own ++ [⟨v, thread⟩]) ⟨n, m.control, m.stack⟩)
    (hbusy : ∀ own thread, holds own thread → ¬through thread → ¬thread.IsBare) :
    ∃ during later x thread, trail = during ++ later ∧ Run client start during x ∧
      Run client x later w ∧ x.thread? n = some thread ∧ holds (ownMoments n during) thread ∧
      (through thread ∨ later = [] ∧ x = w) := by
  induction run with
  | refl =>
    obtain ⟨thread, hthread, hholds⟩ := hbegin
    exact ⟨[], [], start, thread, rfl, .refl, .refl, hthread, hholds, .inr ⟨rfl, rfl⟩⟩
  | @step trail w w' n' other before hother hs ih =>
    obtain ⟨during, later, x, thread, rfl, hduring, hlater, hthread, hholds, hend⟩ := ih
    by_cases hthrough : through thread
    · exact ⟨during, later ++ [⟨w, other⟩], x, thread, List.append_assoc _ _ _, hduring,
        hlater.step hother hs, hthread, hholds, .inl hthrough⟩
    obtain ⟨rfl, rfl⟩ := hend.resolve_left hthrough
    have hid := World.id_of_thread? hother
    have hplaced : x.Placed := hduring.stays_placed hstart
    obtain ⟨⟨m, hm, stepped⟩, ho⟩ := World.step_stepped hplaced.orderly hother hs
    rw [List.append_nil]
    by_cases hne : n' = n
    · subst hne
      cases hother.symm.trans hthread
      refine ⟨during ++ [⟨x, other⟩], [], w', ⟨n', m.control, m.stack⟩, (List.append_nil _).symm,
        hduring.step hother hs, .refl, hid ▸ ho.thread?_eq stepped.succession.mem_after, ?_, .inr ⟨rfl, rfl⟩⟩
      rw [ownMoments_snoc_self hid]
      exact hstep _ x other m (hplaced.placed other (World.mem_of_thread? hother)) hholds hthrough hid hm
    · refine ⟨during ++ [⟨x, other⟩], [], w', thread, (List.append_nil _).symm, hduring.step hother hs,
        .refl, stepped.keeps_busy ho hthread (Ne.symm hne) (hbusy _ _ hholds hthrough), ?_, .inr ⟨rfl, rfl⟩⟩
      rw [ownMoments_snoc_ne fun h => hne (hid.symm.trans h)]
      exact hholds
  | @between trail w w' before hb ih =>
    obtain ⟨during, later, x, thread, rfl, hduring, hlater, hthread, hholds, hend⟩ := ih
    by_cases hthrough : through thread
    · exact ⟨during, later, x, thread, rfl, hduring, hlater.between hb, hthread, hholds, .inl hthrough⟩
    obtain ⟨rfl, rfl⟩ := hend.resolve_left hthrough
    obtain ⟨hinterlude, ho⟩ := World.between_interlude (hduring.stays_placed hstart).orderly hb
    exact ⟨during, [], w', thread, rfl, hduring.between hb, .refl,
      World.keeps_busy_of_interlude hinterlude ho hthread (hbusy _ _ hholds hthrough), hholds,
      .inr ⟨rfl, rfl⟩⟩

end Exchange
