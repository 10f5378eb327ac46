import Exchange.Diagnostic.Sink
import Exchange.Machine.Program
import Mathlib.Data.List.Induction
import Mathlib.Data.List.Nodup

/-!
What a set of sinks hands to whom. Its members are handed a diagnostic one after the other; when one of them
panics, all others are told of that before the next one is handed it, and of panics on the way of such a
report nobody is told. All this follows from who panics when the diagnostic itself is handed over.
-/

namespace Exchange
set_option autoImplicit false

variable {K : Type} {members : List (Sink K)} {sink : Sink K} {diagnostic report : Diagnostic}
  {place culprit : Nat}

/-- What is handed to a member of a set, which is known by its place. -/
abbrev Handover (K : Type) := (Sink K × Nat) × Diagnostic

/-- The report of a member's panic, made of its payload and of the number that is next. Of a panic on the way
of such a report there is none. -/
def Sink.panicReport? (diagnostic : Diagnostic) (sink : Sink K) (panic : Option (Payload × Nat)) :
    Option Diagnostic :=
  if diagnostic.kind = .sinkPanicked then none
  else panic.map fun (payload, seq) => ⟨.sinkPanicked, some sink.name, some payload.info, seq⟩

/-- The report of a panic goes to all members in that row but the culprit. -/
def telling (row : List (Sink K × Nat)) (culprit : Nat) (report : Diagnostic) : List (Handover K) :=
  (row.filter (·.2 ≠ culprit)).map (·, report)

/-- A member is handed the diagnostic; if it panics, all others are told at once. -/
def handoversOf (members : List (Sink K)) (diagnostic : Diagnostic) (member : Sink K × Nat)
    (panic : Option (Payload × Nat)) : List (Handover K) :=
  (member, diagnostic) :: (member.1.panicReport? diagnostic panic).toList.flatMap
    (telling members.zipIdx member.2)

/-- What a set hands to its members, by the panics of those who have been handed the diagnostic. -/
def handovers (members : List (Sink K)) (diagnostic : Diagnostic) (panics : List (Option (Payload × Nat))) :
    List (Handover K) :=
  (members.zipIdx.zip panics).flatMap fun (member, panic) => handoversOf members diagnostic member panic

/-- The reports that a set makes. -/
def reportsOf (members : List (Sink K)) (diagnostic : Diagnostic) (panics : List (Option (Payload × Nat))) :
    List Diagnostic :=
  (members.zip panics).filterMap fun (sink, panic) => sink.panicReport? diagnostic panic

/-- Who has panicked. -/
def culprits (panics : List (Option (Payload × Nat))) : List (Nat × Payload × Nat) :=
  panics.zipIdx.filterMap fun (panic, place) => panic.map (place, ·)

/-- What the member at that place is handed. -/
def received (place : Nat) (calls : List (Handover K)) : List Diagnostic :=
  (calls.filter (·.1.2 = place)).map (·.2)

section
variable {panics : List (Option (Payload × Nat))} {panic : Option (Payload × Nat)}

theorem zip_snoc {α β : Type} {as : List α} {bs : List β} {a : α} {b : β}
    (h : as[bs.length]? = some a) : as.zip (bs ++ [b]) = as.zip bs ++ [(a, b)] := by
  induction bs generalizing as with
  | nil =>
    cases as with
    | nil => cases h
    | cons first as =>
      cases h
      simp
  | cons first bs ih =>
    cases as with
    | nil => cases h
    | cons first' as => exact congrArg ((first', first) :: ·) (ih h)

theorem handovers_nil : handovers members diagnostic [] = [] := by simp [handovers]

theorem handovers_snoc (h : members[panics.length]? = some sink) :
    handovers members diagnostic (panics ++ [panic]) =
      handovers members diagnostic panics ++ handoversOf members diagnostic (sink, panics.length) panic := by
  have hplace : members.zipIdx[panics.length]? = some (sink, panics.length) := by
    simp [List.getElem?_zipIdx, h]
  rw [handovers, zip_snoc hplace, List.flatMap_append, ← handovers]
  simp

theorem reportsOf_snoc (h : members[panics.length]? = some sink) :
    reportsOf members diagnostic (panics ++ [panic]) =
      reportsOf members diagnostic panics ++ (sink.panicReport? diagnostic panic).toList := by
  rw [reportsOf, zip_snoc h, List.filterMap_append, ← reportsOf]
  cases hreport : sink.panicReport? diagnostic panic <;> simp [hreport]

theorem culprits_snoc : culprits (panics ++ [panic]) =
    culprits panics ++ (panic.map (panics.length, ·)).toList := by
  rw [culprits, List.zipIdx_append, List.filterMap_append, ← culprits]
  cases panic <;> simp

theorem telling_snoc (h : members[place]? = some sink) :
    telling (members.zipIdx.take (place + 1)) culprit report =
      telling (members.zipIdx.take place) culprit report ++
        (if place = culprit then [] else [((sink, place), report)]) := by
  have hplace : members.zipIdx[place]? = some (sink, place) := by
    simp [List.getElem?_zipIdx, h]
  rw [telling, List.take_add_one, hplace, List.filter_append, List.map_append, ← telling]
  by_cases hculprit : place = culprit <;> simp [hculprit]

theorem panicReport?_none : sink.panicReport? diagnostic none = none := by
  simp [Sink.panicReport?]

theorem handoversOf_none : handoversOf members diagnostic (sink, place) none =
    [((sink, place), diagnostic)] := by
  simp [handoversOf, panicReport?_none]

/-! ### What each member receives -/

theorem received_append (first second : List (Handover K)) :
    received place (first ++ second) = received place first ++ received place second := by
  simp [received]

/-- Of a panic each member but the culprit is told once. -/
theorem received_telling (hplace : place < members.length) :
    received place (telling members.zipIdx culprit report) = if place = culprit then [] else [report] := by
  have hplaces : members.zipIdx.map (·.2) = List.range members.length := by
    rw [List.zipIdx_map_snd, ← List.range_eq_range']
  have hone : (List.range members.length).filter (· = place) = [place] := by
    rw [List.filter_eq, List.count_eq_one_of_mem List.nodup_range (List.mem_range.mpr hplace)]
    rfl
  calc received place (telling members.zipIdx culprit report)
    _ = (((members.zipIdx.map (·.2)).filter (· = place)).filter (· ≠ culprit)).map fun _ => report := by
        simp only [received, telling, List.filter_map, List.map_map, List.filter_filter, Function.comp_def,
          Bool.and_comm]
    _ = if place = culprit then [] else [report] := by
        rw [hplaces, hone]
        by_cases hculprit : place = culprit <;> simp [hculprit]

theorem received_handoversOf (hplace : place < members.length) :
    received place (handoversOf members diagnostic (sink, culprit) panic) =
      if place = culprit then [diagnostic] else (sink.panicReport? diagnostic panic).toList := by
  have hfirst : received place [((sink, culprit), diagnostic)] =
      if place = culprit then [diagnostic] else [] := by
    rw [received, List.filter_singleton]
    by_cases hculprit : place = culprit
    · simp [hculprit]
    · simp [hculprit, Ne.symm hculprit]
  rw [handoversOf, ← List.singleton_append, received_append, hfirst]
  cases sink.panicReport? diagnostic panic with
  | none => simp [received]
  | some report =>
    rw [Option.toList_some, List.flatMap_singleton, received_telling hplace]
    split <;> rfl

theorem Sink.kind_of_panicReport? (h : sink.panicReport? diagnostic panic = some report) :
    diagnostic.kind ≠ .sinkPanicked ∧ report.kind = .sinkPanicked := by
  unfold panicReport? at h
  split at h
  · cases h
  · rename_i hkind
    obtain ⟨_, -, rfl⟩ := Option.map_eq_some_iff.mp h
    exact ⟨hkind, rfl⟩

/-- Each member is handed the diagnostic once, and is told once of each panic of the others, unless the
diagnostic tells of a panic itself. -/
theorem received_handovers (diagnostic : Diagnostic) (hplace : place < members.length)
    (hlength : panics.length ≤ members.length) :
    (received place (handovers members diagnostic panics)).count diagnostic =
      (if place < panics.length then 1 else 0) ∧
    (received place (handovers members diagnostic panics)).length = (if place < panics.length then 1 else 0) +
      if diagnostic.kind = .sinkPanicked then 0 else (culprits panics).countP (·.1 ≠ place) := by
  induction panics using List.reverseRecOn with
  | nil => simp [handovers_nil, received, culprits]
  | append_singleton panics panic ih =>
    rw [List.length_append, List.length_singleton] at hlength ⊢
    obtain ⟨hcount, hall⟩ := ih (by omega)
    have hsink : members[panics.length]? = some members[panics.length] := List.getElem?_eq_getElem hlength
    rw [handovers_snoc hsink, received_append, List.count_append, List.length_append, hcount, hall,
      received_handoversOf hplace, culprits_snoc, List.countP_append]
    by_cases hown : place = panics.length
    · subst hown
      cases panic <;> simp [Nat.add_comm]
    · have hbefore : place < panics.length ↔ place < panics.length + 1 := by omega
      simp only [hown, if_false, hbefore]
      constructor
      · suffices h : diagnostic ∉ (Sink.panicReport? diagnostic members[panics.length] panic).toList by
          rw [List.count_eq_zero.mpr h, Nat.add_zero]
        intro hmem
        have hkinds := Sink.kind_of_panicReport? (Option.mem_toList.mp hmem)
        exact hkinds.1 hkinds.2
      · rw [Nat.add_assoc]
        congr 1
        by_cases hkind : diagnostic.kind = .sinkPanicked
        · simp [Sink.panicReport?, hkind]
        · cases panic <;> simp [Sink.panicReport?, hkind, Ne.symm hown]

/-- Of the report of a panic nothing is told in turn. -/
theorem handovers_of_sinkPanicked
    (hkind : diagnostic.kind = .sinkPanicked) (hlength : panics.length = members.length) :
    handovers members diagnostic panics = members.zipIdx.map (·, diagnostic) ∧
      reportsOf members diagnostic panics = [] := by
  have hnone (sink : Sink K) (panic : Option (Payload × Nat)) : sink.panicReport? diagnostic panic = none := by
    simp [Sink.panicReport?, hkind]
  have hzip : (members.zipIdx.zip panics).map Prod.fst = members.zipIdx :=
    List.map_fst_zip (by simp [hlength])
  constructor
  · rw [← hzip, List.map_map, List.map_eq_flatMap]
    simp only [handovers, handoversOf, hnone, Option.toList_none, List.flatMap_nil, Function.comp_apply]
  · simp [reportsOf, hnone]

end

end Exchange
