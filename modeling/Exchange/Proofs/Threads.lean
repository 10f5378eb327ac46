import Exchange.Proofs.Stride
import Mathlib.Data.List.Nodup

/-!
The threads of an exchange. They have different numbers, and a step changes the thread that takes
it; other threads at most come and go, while they are in the middle of nothing.
-/

namespace Exchange
set_option autoImplicit false

variable {M E K H : Type} {client : Client M E K H} {w w' : World M E K H} {t : Nat}
  {thread : Thread M E K H}

/-- Threads have different numbers, all of them given out. -/
structure World.Orderly (w : World M E K H) : Prop where
  nodup : (w.threads.map (·.id)).Nodup
  fresh : ∀ thread ∈ w.threads, thread.id < w.nextThread

/-- The thread is about to run code, or over. -/
def Thread.IsBare : Thread M E K H → Prop
  | ⟨_, .eval _, []⟩ | ⟨_, .resume _, []⟩ | ⟨_, .unwind _, []⟩ => True
  | _ => False

instance (thread : Thread M E K H) : Decidable thread.IsBare :=
  match thread with
  | ⟨_, .eval _, []⟩ | ⟨_, .resume _, []⟩ | ⟨_, .unwind _, []⟩ => isTrue trivial
  | ⟨_, .perform _, []⟩ | ⟨_, .act _, []⟩ | ⟨_, .deliver _ _, []⟩ | ⟨_, .await _, []⟩ => isFalse id
  | ⟨_, .eval _, _ :: _⟩ | ⟨_, .resume _, _ :: _⟩ | ⟨_, .unwind _, _ :: _⟩ | ⟨_, .perform _, _ :: _⟩
  | ⟨_, .act _, _ :: _⟩ | ⟨_, .deliver _ _, _ :: _⟩ | ⟨_, .await _, _ :: _⟩ => isFalse id

/-- All calls have returned. -/
def World.IsQuiet (w : World M E K H) : Prop := ∀ thread ∈ w.threads, thread.IsBare

instance (w : World M E K H) : Decidable w.IsQuiet := List.decidableBAll _ _

theorem Thread.isBare_of_isOver (h : thread.isOver) : thread.IsBare := by
  obtain ⟨id, control, stack⟩ := thread
  cases stack <;> cases control <;> simp_all [Thread.isOver, Thread.IsBare]

theorem Thread.IsBare.stack_eq (h : thread.IsBare) : thread.stack = [] := by
  obtain ⟨n, control, stack⟩ := thread
  cases control <;> cases stack <;> first | exact h.elim | rfl

namespace World

theorem id_of_thread? (h : w.thread? t = some thread) : thread.id = t := by
  simpa using List.find?_some h

theorem mem_of_thread? (h : w.thread? t = some thread) : thread ∈ w.threads :=
  List.mem_of_find?_eq_some h

namespace Orderly

theorem eq_of_id_eq (ho : w.Orderly) {first second : Thread M E K H} (hf : first ∈ w.threads)
    (hs : second ∈ w.threads) (h : first.id = second.id) : first = second :=
  List.inj_on_of_nodup_map ho.nodup hf hs h

theorem thread?_eq (ho : w.Orderly) (h : thread ∈ w.threads) :
    w.thread? thread.id = some thread := by
  cases hf : w.thread? thread.id with
  | none => simpa using List.find?_eq_none.mp hf thread h
  | some other => rw [ho.eq_of_id_eq (mem_of_thread? hf) h (id_of_thread? hf)]

theorem split (ho : w.Orderly) (h : w.thread? t = some thread) :
    ∃ before after, w.threads = before ++ thread :: after ∧ (∀ other ∈ before, other.id ≠ t) ∧
      ∀ other ∈ after, other.id ≠ t := by
  obtain ⟨hid, before, after, heq, hbefore⟩ := List.find?_eq_some_iff_append.mp h
  have hid : thread.id = t := by simpa using hid
  refine ⟨before, after, heq, by simpa using hbefore, ?_⟩
  intro other hother hsame
  have hnodup := ho.nodup
  rw [heq, List.map_append, List.map_cons] at hnodup
  have hnot := (List.nodup_cons.mp (List.nodup_append.mp hnodup).2.1).1
  apply hnot
  exact List.mem_map.mpr ⟨other, hother, hsame.trans hid.symm⟩

end Orderly

def moved (t : Nat) (control : Control M E K H) (stack : List (Frame M E K H))
    (threads : List (Thread M E K H)) : List (Thread M E K H) :=
  threads.map fun other => if other.id = t then { other with control, stack } else other

variable {control : Control M E K H} {stack : List (Frame M E K H)}

theorem moved_others {threads : List (Thread M E K H)} (h : ∀ other ∈ threads, other.id ≠ t) :
    moved t control stack threads = threads := by
  unfold moved
  conv_rhs => rw [← List.map_id threads]
  apply List.map_congr_left
  intro other hother
  simp [h other hother]

theorem moved_split {before after : List (Thread M E K H)} (hid : thread.id = t)
    (hbefore : ∀ other ∈ before, other.id ≠ t) (hafter : ∀ other ∈ after, other.id ≠ t) :
    moved t control stack (before ++ thread :: after) = before ++ ⟨t, control, stack⟩ :: after := by
  have hb : moved t control stack before = before := moved_others hbefore
  have ha : moved t control stack after = after := moved_others hafter
  unfold moved at hb ha ⊢
  rw [List.map_append, List.map_cons, hb, ha, if_pos hid, ← hid]

theorem map_id_moved (threads : List (Thread M E K H)) :
    (moved t control stack threads).map (·.id) = threads.map (·.id) := by
  unfold moved
  rw [List.map_map]
  apply List.map_congr_left
  intro other _
  simp only [Function.comp]
  split <;> rfl

theorem Orderly.moved (ho : w.Orderly) :
    Orderly { w with threads := World.moved t control stack w.threads } := by
  constructor
  · rw [map_id_moved]
    exact ho.nodup
  · intro other hother
    have hmem := List.mem_map_of_mem (f := (·.id)) hother
    rw [map_id_moved] at hmem
    obtain ⟨first, hfirst, heq⟩ := List.mem_map.mp hmem
    rw [← heq]
    exact ho.fresh first hfirst

theorem orderly_same (ho : w.Orderly) (hs : SameThreads w w') : w'.Orderly := by
  constructor
  · rw [hs.threads]
    exact ho.nodup
  · rw [hs.threads, hs.nextThread]
    exact ho.fresh

end World

/-- The threads before and after a step, up to their order: one has moved on, and others that are in
the middle of nothing may have come or gone. -/
def Succession (thread : Thread M E K H) (control : Control M E K H) (stack : List (Frame M E K H))
    (before after : List (Thread M E K H)) : Prop :=
  ∃ come gone kept, before.Perm (thread :: (gone ++ kept)) ∧
    after.Perm (⟨thread.id, control, stack⟩ :: (come ++ kept)) ∧
    ∀ other ∈ come ++ gone, other.IsBare

namespace Succession
variable {before after : List (Thread M E K H)} {control : Control M E K H}
  {stack : List (Frame M E K H)}

theorem mem_after (h : Succession thread control stack before after) :
    ⟨thread.id, control, stack⟩ ∈ after := by
  obtain ⟨come, gone, kept, -, ha, -⟩ := h
  exact ha.mem_iff.mpr List.mem_cons_self

theorem others_after (h : Succession thread control stack before after) {other : Thread M E K H}
    (hm : other ∈ after) : other = ⟨thread.id, control, stack⟩ ∨ other ∈ before ∨ other.IsBare := by
  obtain ⟨come, gone, kept, hb, ha, hbare⟩ := h
  rcases List.mem_cons.mp (ha.mem_iff.mp hm) with rfl | hm
  · exact .inl rfl
  · rcases List.mem_append.mp hm with hm | hm
    · exact .inr (.inr (hbare other (List.mem_append_left _ hm)))
    · exact .inr (.inl (hb.mem_iff.mpr (List.mem_cons_of_mem _ (List.mem_append_right _ hm))))

theorem others_before (h : Succession thread control stack before after) {other : Thread M E K H}
    (hm : other ∈ before) : other = thread ∨ other ∈ after ∨ other.IsBare := by
  obtain ⟨come, gone, kept, hb, ha, hbare⟩ := h
  rcases List.mem_cons.mp (hb.mem_iff.mp hm) with rfl | hm
  · exact .inl rfl
  · rcases List.mem_append.mp hm with hm | hm
    · exact .inr (.inr (hbare other (List.mem_append_right _ hm)))
    · exact .inr (.inl (ha.mem_iff.mpr (List.mem_cons_of_mem _ (List.mem_append_right _ hm))))

end Succession

theorem Stride.threads {control : Control M E K H} {stack : List (Frame M E K H)}
    {m : Move M E K H} (h : Stride client w t control stack m) :
    SameThreads w m.world ∨ Forked w t m.world ∨
      ∃ child, control = .await child ∧ Joined w child m.world := by
  cases h with
  | forks _ hf => exact .inr (.inl hf)
  | forksAndWaits _ hf => exact .inr (.inl hf)
  | joins _ hj =>
    rcases hj with hc | hj
    · exact .inl hc.toSameThreads
    · exact .inr (.inr ⟨_, rfl, hj⟩)
  | joinsPanic _ hj => exact .inr (.inr ⟨_, rfl, hj⟩)
  | changes _ hc => exact .inl hc.toSameThreads
  | acts hc => exact .inl hc.toSameThreads
  | records hc => exact .inl hc.toSameThreads
  | fansOn _ _ hc => exact .inl hc.toSameThreads
  | runsOn _ _ _ hc => exact .inl hc.toSameThreads
  | closes _ _ hc => exact .inl hc.toSameThreads
  | pops _ _ hc => exact .inl hc.toSameThreads
  | answers _ hs => exact .inl hs
  | owes _ hs => exact .inl hs
  | serves _ hs => exact .inl hs
  | advances hs => exact .inl hs
  | drops _ _ hs => exact .inl hs
  | retires hs => exact .inl hs
  | leaves _ hs => exact .inl hs
  | catches _ hs => exact .inl hs
  | _ => exact .inl ⟨rfl, rfl⟩

namespace World
variable {control : Control M E K H} {stack : List (Frame M E K H)}

theorem succession_same (ho : w.Orderly) (ht : w.thread? t = some thread) :
    Succession thread control stack w.threads (moved t control stack w.threads) := by
  obtain ⟨before, after, heq, hbefore, hafter⟩ := ho.split ht
  have hid := id_of_thread? ht
  rw [heq, moved_split hid hbefore hafter]
  refine ⟨[], [], before ++ after, List.perm_middle, ?_, by simp⟩
  rw [hid]
  exact List.perm_middle

theorem succession_forked (ho : w.Orderly) (ht : w.thread? t = some thread) (hf : Forked w t w') :
    Succession thread control stack w.threads (moved t control stack w'.threads) ∧
      (w'.threads.map (·.id)).Perm (w.nextThread :: w.threads.map (·.id)) := by
  -- only the entry of the thread itself is replaced by two
  obtain ⟨before, after, heq, hbefore, hafter⟩ := ho.split ht
  have hid := id_of_thread? ht
  obtain ⟨code, hthreads⟩ := hf.threads
  let child : Thread M E K H := ⟨w.nextThread, .eval code, []⟩
  have alone {threads : List (Thread M E K H)} (h : ∀ other ∈ threads, other.id ≠ t) :
      (threads.flatMap fun other => if other.id = t then [child, other] else [other]) =
        threads := by
    rw [List.flatMap_congr fun other hother => if_neg (h other hother)]
    simp
  have hnew : w'.threads = (before ++ [child]) ++ thread :: after := by
    rw [hthreads, heq, List.flatMap_append, List.flatMap_cons, alone hbefore, alone hafter,
      if_pos hid]
    simp [child]
  have hchild : ∀ other ∈ before ++ [child], other.id ≠ t := by
    intro other hother
    rcases List.mem_append.mp hother with hother | hother
    · exact hbefore other hother
    · have hfresh := ho.fresh thread (mem_of_thread? ht)
      rw [List.mem_singleton.mp hother, ← hid]
      exact Nat.ne_of_gt hfresh
  constructor
  · rw [hnew, heq, moved_split hid hchild hafter]
    refine ⟨[child], [], before ++ after, List.perm_middle, ?_, by simp [Thread.IsBare, child]⟩
    rw [hid]
    apply List.perm_middle.trans
    apply List.Perm.cons
    rw [List.append_assoc]
    exact List.perm_middle
  · rw [hnew, heq]
    simp only [List.append_assoc, List.map_append]
    exact List.perm_middle

theorem orderly_forked (ho : w.Orderly) (hf : Forked w t w')
    (hperm : (w'.threads.map (·.id)).Perm (w.nextThread :: w.threads.map (·.id))) :
    w'.Orderly := by
  constructor
  · apply hperm.nodup_iff.mpr
    apply List.nodup_cons.mpr
    refine ⟨?_, ho.nodup⟩
    intro hmem
    obtain ⟨other, hother, heq⟩ := List.mem_map.mp hmem
    exact Nat.ne_of_lt (ho.fresh other hother) heq
  · intro other hother
    have hmem := List.mem_map_of_mem (f := (·.id)) hother
    have hnext := hf.nextThread
    rcases List.mem_cons.mp (hperm.mem_iff.mp hmem) with heq | hold
    · omega
    · obtain ⟨first, hfirst, heq⟩ := List.mem_map.mp hold
      have hfresh := ho.fresh first hfirst
      omega

theorem orderly_joined {child : Nat} (ho : w.Orderly) (hj : Joined w child w') : w'.Orderly := by
  constructor
  · rw [hj.threads]
    exact ho.nodup.sublist (List.filter_sublist.map _)
  · intro other hother
    rw [hj.threads] at hother
    rw [hj.nextThread]
    exact ho.fresh other (List.mem_of_mem_filter hother)

theorem succession_joined {child : Nat} (ho : w.Orderly) (ht : w.thread? t = some thread)
    (hne : child ≠ t) (hj : Joined w child w') :
    Succession thread control stack w.threads (moved t control stack w'.threads) := by
  obtain ⟨before, after, heq, hbefore, hafter⟩ := ho.split ht
  have hid := id_of_thread? ht
  obtain ⟨joined, hfound, hisOver⟩ := hj.finished
  have hkeep :
      w'.threads = before.filter (·.id ≠ child) ++ thread :: after.filter (·.id ≠ child) := by
    rw [hj.threads, heq, List.filter_append, List.filter_cons_of_pos]
    simpa [hid] using hne.symm
  have hsub {threads : List (Thread M E K H)} (h : ∀ other ∈ threads, other.id ≠ t) :
      ∀ other ∈ threads.filter (·.id ≠ child), other.id ≠ t := by
    intro other hother
    exact h other (List.mem_of_mem_filter hother)
  rw [hkeep, heq, moved_split hid (hsub hbefore) (hsub hafter)]
  refine ⟨[], (before ++ after).filter (·.id = child), (before ++ after).filter (·.id ≠ child), ?_,
    ?_, ?_⟩
  · apply List.perm_middle.trans
    apply List.Perm.cons
    simpa using (List.filter_append_perm (fun other => decide (other.id = child))
      (before ++ after)).symm
  · rw [hid, List.filter_append]
    exact List.perm_middle
  · intro other hother
    rw [List.nil_append, List.mem_filter] at hother
    obtain ⟨hmem, hsame⟩ := hother
    have hmem : other ∈ w.threads := by
      rw [heq]
      rcases List.mem_append.mp hmem with h | h
      · exact List.mem_append_left _ h
      · exact List.mem_append_right _ (List.mem_cons_of_mem _ h)
    have hthat : other = joined := ho.eq_of_id_eq hmem (mem_of_thread? hfound)
      ((of_decide_eq_true hsame).trans (id_of_thread? hfound).symm)
    rw [hthat]
    exact Thread.isBare_of_isOver hisOver

/-- What a step is made of: a stride of the thread, and what becomes of the threads. -/
structure Stepped (client : Client M E K H) (t : Nat) (thread : Thread M E K H) (w : World M E K H)
    (m : Move M E K H) (w' : World M E K H) : Prop where
  id : thread.id = t
  stride : Stride client w t thread.control thread.stack m
  rest : ∃ threads, w' = { m.world with threads }
  succession : Succession thread m.control m.stack w.threads w'.threads

theorem Stepped.points {m : Move M E K H} (h : Stepped client t thread w m w') :
    w'.points = m.world.points := by
  obtain ⟨_, rfl⟩ := h.rest
  rfl

theorem step_stepped (ho : w.Orderly) (ht : w.thread? t = some thread)
    (hs : w.step client t = some w') :
    (∃ m, w.move client t thread.stack thread.control = some m ∧ Stepped client t thread w m w') ∧
      w'.Orderly := by
  have hid := id_of_thread? ht
  obtain ⟨current, hcurrent, hs⟩ := Option.bind_eq_some_iff.mp hs
  cases ht.symm.trans hcurrent
  obtain ⟨m, hm, hs⟩ := Option.bind_eq_some_iff.mp hs
  cases hs
  have stride := move_stride hm
  change _ ∧ Orderly { m.world with threads := moved t m.control m.stack m.world.threads }
  rcases stride.threads with hsame | hforked | ⟨child, hawait, hjoined⟩
  · refine ⟨⟨m, hm, hid, stride, ⟨_, rfl⟩, ?_⟩, (orderly_same ho hsame).moved⟩
    change Succession _ _ _ _ (moved t m.control m.stack m.world.threads)
    rw [hsame.threads]
    exact succession_same ho ht
  · obtain ⟨hsuccession, hperm⟩ := succession_forked ho ht hforked
    exact ⟨⟨m, hm, hid, stride, ⟨_, rfl⟩, hsuccession⟩, (orderly_forked ho hforked hperm).moved⟩
  · have hne : child ≠ t := by
      rintro rfl
      obtain ⟨joined, hfound, hisOver⟩ := hjoined.finished
      cases ht.symm.trans hfound
      obtain ⟨id, control, stack⟩ := thread
      cases hawait
      cases stack <;> simp [Thread.isOver] at hisOver
    exact ⟨⟨m, hm, hid, stride, ⟨_, rfl⟩, succession_joined ho ht hne hjoined⟩,
      (orderly_joined ho hjoined).moved⟩

theorem thread?_of_step (ho : w.Orderly) (ht : w.thread? t = some thread)
    (hs : w.step client t = some w') :
    ∃ m, w.move client t thread.stack thread.control = some m ∧
      w'.thread? t = some ⟨t, m.control, m.stack⟩ := by
  obtain ⟨⟨m, hm, stepped⟩, ho'⟩ := step_stepped ho ht hs
  exact ⟨m, hm, stepped.id ▸ ho'.thread?_eq stepped.succession.mem_after⟩

/-! ## Between two steps -/

end World

/-- A thread that begins something: code of the client, or the turn of a task. -/
inductive Thread.Begins : Thread M E K H → Prop
  | bare {thread : Thread M E K H} : thread.IsBare → Begins thread
  | turn (id : Nat) (code : Code M E K H (Reply M K)) (t : Nat) (stage : Stage K) :
      Begins ⟨id, .eval code, [.turn t stage]⟩
  | closing (id p : Nat) {todo : List (Act M E K)} (t : Nat) (stage : Stage K) : Neat todo →
      (∀ act ∈ todo, act.IsAside) → Begins ⟨id, .resume .done, [.acts p todo .done, .turn t stage]⟩

/-- What happens between two steps does not touch the points, and threads that are in the middle of
nothing give way to threads that begin something. -/
structure Interlude (w w' : World M E K H) : Prop where
  points : w'.points = w.points
  threads : ∃ come gone kept, w.threads.Perm (gone ++ kept) ∧ w'.threads.Perm (come ++ kept) ∧
    (∀ thread ∈ gone, thread.IsBare) ∧ ∀ thread ∈ come, thread.Begins

namespace World
variable {control : Control M E K H} {stack : List (Frame M E K H)}

theorem ask_begins (id : Nat) (task : Task K) (producer : K) :
    Thread.Begins ⟨id, (w.ask client [] t task producer).control,
      (w.ask client [] t task producer).stack⟩ ∧
      Calm w (w.ask client [] t task producer).world := by
  unfold ask
  split
  · exact ⟨.closing _ _ _ _ (neat_closing task _) (aside_closing task _), calm_refl⟩
  · exact ⟨.turn _ _ _ _, calm_modifyTask _⟩

theorem beginTurn_begins (id : Nat) :
    Thread.Begins ⟨id, (w.beginTurn client [] t).control, (w.beginTurn client [] t).stack⟩ ∧
      Calm w (w.beginTurn client [] t).world := by
  unfold beginTurn
  dsimp only
  split
  · exact ⟨.bare trivial, calm_refl⟩
  · split
    · exact ⟨.turn _ _ _ _, calm_modifyTask _⟩
    · obtain ⟨hbegins, hcalm⟩ := ask_begins id _ _
      exact ⟨hbegins, (calm_modifyTask _).trans hcalm⟩
    · exact ⟨.bare trivial, calm_refl⟩

theorem beginTurn_calm : Calm w (w.beginTurn client [] t).world := (beginTurn_begins mainThread).2

theorem interlude_assign (ho : w.Orderly) (hi : w.isIdle) (hc : Calm w w')
    (hb : Thread.Begins ⟨mainThread, control, stack⟩) :
    Interlude w (w'.assign control stack) ∧ (w'.assign control stack).Orderly := by
  have hthreads : (w'.assign control stack).threads = moved mainThread control stack w.threads := by
    change moved mainThread control stack w'.threads = _
    rw [hc.threads]
  have hpoints : (w'.assign control stack).points = w.points := hc.points
  refine ⟨⟨hpoints, ?_⟩, (orderly_same ho hc.toSameThreads).moved⟩
  rw [hthreads]
  cases ht : w.thread? mainThread with
  | none =>
    refine ⟨[], [], w.threads, .refl _, ?_, by simp, by simp⟩
    rw [moved_others (by simpa using List.find?_eq_none.mp ht)]
    exact .refl _
  | some main =>
    have hover : main.isOver := by simpa [isIdle, ht] using hi
    obtain ⟨come, gone, kept, hbefore, hafter, hbare⟩ :
        Succession main control stack w.threads (moved mainThread control stack w.threads) :=
      succession_same ho ht
    rw [id_of_thread? ht] at hafter
    refine ⟨⟨mainThread, control, stack⟩ :: come, main :: gone, kept, hbefore, hafter, ?_, ?_⟩
    · intro other hother
      rcases List.mem_cons.mp hother with rfl | hother
      · exact Thread.isBare_of_isOver hover
      · exact hbare other (List.mem_append_right _ hother)
    · intro other hother
      rcases List.mem_cons.mp hother with rfl | hother
      · exact hb
      · exact .bare (hbare other (List.mem_append_left _ hother))

theorem interlude_same (ho : w.Orderly) (hc : Calm w w') : Interlude w w' ∧ w'.Orderly := by
  refine ⟨⟨hc.points, [], [], w.threads, .refl _, ?_, by simp, by simp⟩,
    orderly_same ho hc.toSameThreads⟩
  rw [hc.threads]
  exact .refl _

theorem calm_advance (time : Nat) : Calm w (w.advance time) := by
  have wakes (due : List Nat) (v : World M E K H) : Calm v (due.foldl (fun w t => w.wake t) v) := by
    induction due generalizing v with
    | nil => exact calm_refl
    | cons t due ih => exact (calm_wake calm_refl).trans (ih (v.wake t))
  have moves : Calm w { w with clock := max w.clock time } := ⟨⟨rfl, rfl⟩, rfl⟩
  exact moves.trans (wakes _ _)

theorem between_interlude (ho : w.Orderly) (hb : Between client w w') :
    Interlude w w' ∧ w'.Orderly := by
  cases hb with
  | code code hi => exact interlude_assign ho hi calm_refl (.bare trivial)
  | @turn t ready hi hr =>
    obtain ⟨hbegins, hcalm⟩ := beginTurn_begins (w := { w with ready }) mainThread
    have takes : Calm w { w with ready } := ⟨⟨rfl, rfl⟩, rfl⟩
    exact interlude_assign ho hi (takes.trans hcalm) hbegins
  | clock time => exact interlude_same ho (calm_advance time)
  | host change => exact interlude_same ho ⟨⟨rfl, rfl⟩, rfl⟩
  | reap =>
    refine ⟨⟨rfl, [], w.threads.filter (fun thread => !(thread.id = mainThread || !thread.isOver)),
      w.threads.filter (fun thread => thread.id = mainThread || !thread.isOver), ?_, .refl _,
        ?_, by simp⟩, ?_, ?_⟩
    · exact ((List.perm_append_comm).trans (List.filter_append_perm _ _)).symm
    · intro thread hthread
      apply Thread.isBare_of_isOver
      have hgone := (List.mem_filter.mp hthread).2
      simp only [Bool.not_or, Bool.not_not, Bool.and_eq_true] at hgone
      exact hgone.2
    · exact ho.nodup.sublist (List.filter_sublist.map _)
    · intro thread hthread
      exact ho.fresh thread (List.mem_of_mem_filter hthread)

/-- A thread that is not bare is left alone by the steps of others, and between steps. -/
theorem Stepped.keeps_busy {m : Move M E K H} (h : Stepped client t thread w m w') (ho : w'.Orderly)
    {n : Nat} {other : Thread M E K H} (hother : w.thread? n = some other) (hne : n ≠ t)
    (hs : ¬other.IsBare) : w'.thread? n = some other := by
  have hid := id_of_thread? hother
  rcases h.succession.others_before (mem_of_thread? hother) with rfl | hafter | hbare
  · exact absurd (hid.symm.trans h.id) hne
  · exact hid ▸ ho.thread?_eq hafter
  · exact absurd hbare hs

theorem keeps_busy_of_interlude (h : Interlude w w') (ho : w'.Orderly) {n : Nat}
    {other : Thread M E K H} (hother : w.thread? n = some other) (hs : ¬other.IsBare) :
    w'.thread? n = some other := by
  obtain ⟨-, come, gone, kept, hbefore, hafter, hgone, -⟩ := h
  rcases List.mem_append.mp (hbefore.mem_iff.mp (mem_of_thread? hother)) with hmem | hmem
  · exact absurd (hgone other hmem) hs
  · exact id_of_thread? hother ▸ ho.thread?_eq (hafter.mem_iff.mpr (List.mem_append_right _ hmem))

/-- So a thread is that is in the middle of something. -/
theorem Stepped.keeps {m : Move M E K H} (h : Stepped client t thread w m w') (ho : w'.Orderly)
    {n : Nat} {other : Thread M E K H} (hother : w.thread? n = some other) (hne : n ≠ t)
    (hs : other.stack ≠ []) : w'.thread? n = some other :=
  h.keeps_busy ho hother hne fun hbare => hs hbare.stack_eq

theorem keeps_of_interlude (h : Interlude w w') (ho : w'.Orderly) {n : Nat} {other : Thread M E K H}
    (hother : w.thread? n = some other) (hs : other.stack ≠ []) : w'.thread? n = some other :=
  keeps_busy_of_interlude h ho hother fun hbare => hs hbare.stack_eq

theorem initial_orderly (host : H) : (initial host : World M E K H).Orderly :=
  ⟨by simp [initial], by simp [initial]⟩

end World
end Exchange
