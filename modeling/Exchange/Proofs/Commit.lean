import Exchange.Point.Pass

/-!
What a commit makes of a pass. The calls that were put off are of three kinds that do not get in
each other's way: removals concern those who have had their turn, notices join them, and pushes
queue up.
-/

namespace Exchange
set_option autoImplicit false

variable {M E K : Type}

namespace Postponed

def removed? : Postponed M E K → Option Nat
  | .unregister id => some id
  | _ => none

def pushed? : Postponed M E K → Option (Event M E)
  | .push event => some event
  | _ => none

def joined? : Postponed M E K → Option (Entry K)
  | .ending ticket notice => some (.ending ticket notice)
  | _ => none

end Postponed

def Entry.isAmong (ids : List Nat) : Entry K → Bool
  | .observer id _ _ => id ∈ ids
  | .ending _ _ => false

namespace Pass

/-- The numbers of the observers that are to be removed. -/
def removals (pass : Pass M E K) : List Nat := pass.postponed.filterMap Postponed.removed?

/-- The notices that are to join the list. -/
def newcomers (pass : Pass M E K) : List (Entry K) := pass.postponed.filterMap Postponed.joined?

/-- The events of the passes that are to follow. -/
def upcoming (pass : Pass M E K) : List (Event M E) :=
  pass.queue ++ pass.postponed.filterMap Postponed.pushed?

@[simp] theorem isAmong_nil (entry : Entry K) : entry.isAmong [] = false := by
  cases entry <;> simp [Entry.isAmong]

section
variable (pass : Pass M E K) (call : Postponed M E K)

@[simp] theorem removals_postponed :
    { pass with postponed := pass.postponed ++ [call] }.removals = pass.removals ++
    call.removed?.toList := by
  cases call <;> simp [removals, List.filterMap_cons, Postponed.removed?]

@[simp] theorem newcomers_postponed :
    { pass with postponed := pass.postponed ++ [call] }.newcomers = pass.newcomers ++
    call.joined?.toList := by
  cases call <;> simp [newcomers, List.filterMap_cons, Postponed.joined?]

@[simp] theorem upcoming_postponed :
    { pass with postponed := pass.postponed ++ [call] }.upcoming = pass.upcoming ++
    call.pushed?.toList := by
  cases call <;> simp [upcoming, List.filterMap_cons, Postponed.pushed?]

end

section
variable (event : Event M E) (entries : List (Entry K)) (queue : List (Event M E))

@[simp] theorem removals_opened :
    ({ event, waiting := entries, queue } : Pass M E K).removals = [] := rfl

@[simp] theorem newcomers_opened :
    ({ event, waiting := entries, queue } : Pass M E K).newcomers = [] := rfl

@[simp] theorem upcoming_opened :
    ({ event, waiting := entries, queue } : Pass M E K).upcoming = queue := by
  simp [upcoming]

end

theorem foldl_applyPostponed (calls : List (Postponed M E K)) (kept : List (Entry K))
    (queue : List (Event M E)) :
    calls.foldl applyPostponed (kept, queue) =
      (kept.filter (fun entry => !entry.isAmong (calls.filterMap Postponed.removed?)) ++
        calls.filterMap Postponed.joined?, queue ++ calls.filterMap Postponed.pushed?) := by
  induction calls generalizing kept queue with
  | nil =>
    have hall : kept.filter (fun entry => !entry.isAmong []) = kept := by
      apply List.filter_eq_self.mpr
      intro entry _
      rw [isAmong_nil]
      rfl
    simp only [List.filterMap_nil, hall, List.append_nil, List.foldl_nil]
  | cons call calls ih =>
    simp only [List.foldl_cons, List.filterMap_cons]
    cases call with
    | unregister id =>
      simp only [applyPostponed, ih, Postponed.removed?, Postponed.joined?, Postponed.pushed?,
        without,
        List.filter_filter]
      congr 2
      apply List.filter_congr
      intro entry _
      cases entry <;> simp [Entry.isAmong, Entry.id?, Bool.and_comm]
    | push event =>
      simp [applyPostponed, ih, Postponed.removed?, Postponed.joined?, Postponed.pushed?]
    | ending ticket notice =>
      simp [applyPostponed, ih, Postponed.removed?, Postponed.joined?, Postponed.pushed?,
        Entry.isAmong]

def survivors (pass : Pass M E K) : List (Entry K) :=
  pass.kept.filter (fun entry => !entry.isAmong pass.removals) ++ pass.newcomers

theorem settled_eq (pass : Pass M E K) : pass.settled = (pass.survivors, pass.upcoming) :=
  foldl_applyPostponed pass.postponed pass.kept pass.queue

theorem commit_eq (owner : Nat) (pass : Pass M E K) :
    pass.commit owner =
      if pass.event.isLast then
        .ended ⟨pass.event, pass.survivors.filter Entry.isEnding, pass.upcoming⟩
      else if !heldOpen pass.survivors then .ended ⟨.tombstone, pass.survivors, pass.upcoming⟩
      else match pass.upcoming with
        | [] => .listening pass.survivors
        | event :: later =>
          .dispatching owner { event, waiting := pass.survivors, queue := later } := by
  have hsettled := pass.settled_eq
  unfold commit
  generalize pass.settled = settled at hsettled ⊢
  cases hsettled
  rfl

/-! ## The three outcomes -/

variable {owner owner' : Nat} {pass next : Pass M E K} {entries : List (Entry K)}
  {farewell : Farewell M E K}

theorem commit_listening (h : pass.commit owner = .listening entries) :
    ¬pass.event.isLast ∧ heldOpen pass.survivors ∧ pass.upcoming = [] ∧
      entries = pass.survivors := by
  rw [commit_eq] at h
  split at h
  · cases h
  · rename_i hlast
    split at h
    · cases h
    · rename_i hheld
      split at h
      · rename_i hnone
        cases h
        exact ⟨hlast, by simpa using hheld, hnone, rfl⟩
      · cases h

theorem commit_dispatching (h : pass.commit owner = .dispatching owner' next) :
    ¬pass.event.isLast ∧ heldOpen pass.survivors ∧ owner' = owner ∧
      ∃ event later, pass.upcoming = event :: later ∧
        next = { event, waiting := pass.survivors, queue := later } := by
  rw [commit_eq] at h
  split at h
  · cases h
  · rename_i hlast
    split at h
    · cases h
    · rename_i hheld
      split at h
      · cases h
      · rename_i event later hnext
        cases h
        exact ⟨hlast, by simpa using hheld, rfl, event, later, hnext, rfl⟩

theorem commit_ended (h : pass.commit owner = .ended farewell) :
    (pass.event.isLast ∧
      farewell = ⟨pass.event, pass.survivors.filter Entry.isEnding, pass.upcoming⟩) ∨
    (¬pass.event.isLast ∧ ¬heldOpen pass.survivors ∧
      farewell = ⟨.tombstone, pass.survivors, pass.upcoming⟩) := by
  rw [commit_eq] at h
  split at h
  · rename_i hlast
    cases h
    exact .inl ⟨hlast, rfl⟩
  · rename_i hlast
    split at h
    · rename_i hfree
      cases h
      exact .inr ⟨hlast, by simpa using hfree, rfl⟩
    · split at h <;> cases h

end Pass
end Exchange
