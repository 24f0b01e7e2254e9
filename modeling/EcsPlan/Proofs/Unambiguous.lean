import EcsPlan.Proofs.Candidates
import Mathlib.Data.List.Forall2

/-!
Screening by position. What is kept are the positions of declarations that keep every rule and
whose name no other position with such a declaration bears. What is reported are the broken
rules, declaration by declaration, and then the shared names.
-/
namespace EcsPlan

/-- The rules for one declaration, in the order in which breaches of them are reported. -/
inductive Rule where
  | wellFormed
  | unmanaged
  | withoutFields
  | outsideGeneric
  | guidReadable
  | idWithinLimit
  deriving DecidableEq, Repr

def Rule.all : List Rule :=
  [.wellFormed, .unmanaged, .withoutFields, .outsideGeneric, .guidReadable, .idWithinLimit]

def Rule.code : Rule → Code
  | .wellFormed => .structuralDefect
  | .unmanaged => .notUnmanaged
  | .withoutFields => .tagHasFields
  | .outsideGeneric => .nestedInGeneric
  | .guidReadable => .malformedGuid
  | .idWithinLimit => .manualIdAboveLimit

/-- Whether a declaration keeps a rule. Tags have no fields, and neither components nor tags
    may be managed. -/
def TypeDecl.Keeps (limits : Limits) (d : TypeDecl) : Rule → Prop
  | .wellFormed => d.wellFormed = true
  | .unmanaged => d.kind = .component ∨ d.kind = .tag → d.unmanaged = true
  | .withoutFields => d.kind = .tag → d.hasFields = false
  | .outsideGeneric => d.nestedInGeneric = false
  | .guidReadable => ∀ guid ∈ d.guid, Guid.accepts guid.toList = true
  | .idWithinLimit => ∀ id ∈ d.manualId, id ≤ limits.maxId

instance (limits : Limits) (d : TypeDecl) : DecidablePred (d.Keeps limits)
  | .wellFormed => inferInstanceAs (Decidable (_ = _))
  | .unmanaged => inferInstanceAs (Decidable (_ → _))
  | .withoutFields => inferInstanceAs (Decidable (_ → _))
  | .outsideGeneric => inferInstanceAs (Decidable (_ = _))
  | .guidReadable => inferInstanceAs (Decidable (∀ guid ∈ d.guid, _))
  | .idWithinLimit => inferInstanceAs (Decidable (∀ id ∈ d.manualId, _))

def Flawless (limits : Limits) (d : TypeDecl) : Prop := ∀ rule, d.Keeps limits rule

def TypeDecl.broken (limits : Limits) (d : TypeDecl) : List Rule :=
  Rule.all.filter fun rule => ¬ d.Keeps limits rule

/-- What is said of a declaration that breaks a rule. -/
def TypeDecl.BreachText (limits : Limits) (d : TypeDecl) (text : String) : Rule → Prop
  | .wellFormed => text = s!"{d.kind.text} '{d.name}' is not a valid {d.kind.text} declaration"
  | .unmanaged => text = s!"{d.kind.text} '{d.name}' must be an unmanaged type"
  | .withoutFields => text = s!"{d.kind.text} '{d.name}' must not declare instance fields"
  | .outsideGeneric =>
    text = s!"{d.kind.text} '{d.name}' must not be nested inside a generic type"
  | .guidReadable =>
    ∃ guid ∈ d.guid, text = s!"{d.kind.text} '{d.name}' has malformed GUID '{guid}'"
  | .idWithinLimit => ∃ id ∈ d.manualId, text =
      s!"{d.kind.text} '{d.name}' requests ID {id}, above the maximum of {limits.maxId}"

structure ReportsBreach (limits : Limits) (breach : TypeDecl × Rule) (report : Diagnostic) :
    Prop where
  code : report.code = breach.2.code
  severity : report.severity = .error
  message : breach.1.BreachText limits report.message breach.2
  place : report.place = breach.1.place

def Selects {α : Type} (l : List α) (P : Nat → α → Prop) (chosen : List α) : Prop :=
  ∃ positions : List Nat, positions.Pairwise (· < ·) ∧
    (∀ i, i ∈ positions ↔ ∃ a, l[i]? = some a ∧ P i a) ∧
    positions.Forall₂ (fun i a => l[i]? = some a) chosen

section Spec
variable (limits : Limits) (kind : Kind) (declarations : List TypeDecl)

def Bears (name : String) (d : TypeDecl) : Prop :=
  d.kind = kind ∧ Flawless limits d ∧ d.name = name

def SharedName (name : String) : Prop :=
  ∃ (i j : Nat) (d e : TypeDecl), i ≠ j ∧ declarations[i]? = some d ∧ declarations[j]? = some e ∧
    Bears limits kind name d ∧ Bears limits kind name e

/-- Position `i` holds a flawless declaration of the kind, and no other position holds one that
    bears its name. -/
def Unambiguous (i : Nat) (d : TypeDecl) : Prop :=
  d.kind = kind ∧ Flawless limits d ∧
    ∀ (j : Nat) (e : TypeDecl), declarations[j]? = some e → Bears limits kind d.name e → j = i

def breaches : List (TypeDecl × Rule) :=
  (declarations.filter (·.kind = kind)).flatMap fun d => (d.broken limits).map (d, ·)

/-- The report of a shared name tells how many bear it and stands at the first of them that has
    a place. -/
def ReportsShared (name : String) (report : Diagnostic) : Prop :=
  ∃ group place, Selects declarations (fun _ => Bears limits kind name) group ∧
    FirstPlaced group place ∧
    report = ⟨.duplicateName, .error,
      s!"{kind.text} '{name}' is declared {group.length} times; all declarations are ignored",
      place⟩

structure ScreensExactly (screened : Screened) : Prop where
  candidates : Selects declarations (Unambiguous limits kind declarations) screened.candidates
  names : (screened.candidates.map (·.name)).Nodup
  reports : ∃ (faults shared : List Diagnostic) (names : List String),
    screened.diagnostics = faults ++ shared ∧
    (breaches limits kind declarations).Forall₂ (ReportsBreach limits) faults ∧
    names.Pairwise (· < ·) ∧
    (∀ name, name ∈ names ↔ SharedName limits kind declarations name) ∧
    names.Forall₂ (ReportsShared limits kind declarations) shared

end Spec

section Breaches
variable {limits : Limits} {d : TypeDecl}

def Breaks (limits : Limits) (d : TypeDecl) (rule : Rule) (cause : Defect) : Prop :=
  ReportsBreach limits (d, rule) (Finding.defect d.kind d.name d.place cause).diagnostic

theorem forall₂_rule {rule : Rule} {causes : List Defect}
    (kept : d.Keeps limits rule → causes = [])
    (broken : ¬ d.Keeps limits rule → ∃ cause, causes = [cause] ∧ Breaks limits d rule cause) :
    ([rule].filter fun rule => ¬ d.Keeps limits rule).Forall₂ (Breaks limits d) causes := by
  by_cases keeps : d.Keeps limits rule
  · rw [kept keeps, List.filter_cons_of_neg (by simpa using keeps)]
    exact .nil
  · obtain ⟨cause, rfl, breaks⟩ := broken keeps
    rw [List.filter_cons_of_pos (by simpa using keeps)]
    exact .cons breaks .nil

theorem broken_defects (limits : Limits) (d : TypeDecl) :
    (d.broken limits).Forall₂ (Breaks limits d) (d.defects limits) := by
  have split : Rule.all = [.wellFormed] ++ [.unmanaged] ++ [.withoutFields] ++
      [.outsideGeneric] ++ [.guidReadable] ++ [.idWithinLimit] := rfl
  rw [TypeDecl.broken, split]
  simp only [List.filter_append, TypeDecl.defects]
  refine List.rel_append (List.rel_append (List.rel_append (List.rel_append (List.rel_append
    ?_ ?_) ?_) ?_) ?_) ?_
  · apply forall₂_rule <;> intro keeps
    · exact if_pos keeps
    · exact ⟨.structural, if_neg keeps, rfl, rfl, rfl, rfl⟩
  · apply forall₂_rule <;> intro keeps
    · exact if_neg fun broken => broken.2 (keeps broken.1)
    · exact ⟨.notUnmanaged, if_pos (Classical.not_imp.mp keeps), rfl, rfl, rfl, rfl⟩
  · apply forall₂_rule <;> intro keeps
    · exact if_neg fun broken => by simp [keeps broken.1] at broken
    · obtain ⟨tag, fields⟩ := Classical.not_imp.mp keeps
      exact ⟨.hasFields, if_pos ⟨tag, by simpa using fields⟩, rfl, rfl, rfl, rfl⟩
  · apply forall₂_rule <;> intro keeps
    · simp only [TypeDecl.Keeps] at keeps
      rw [keeps]
      rfl
    · simp only [TypeDecl.Keeps, Bool.not_eq_false] at keeps
      exact ⟨.nestedInGeneric, if_pos keeps, rfl, rfl, rfl, rfl⟩
  · apply forall₂_rule <;> intro keeps
    · cases asked : d.guid with
      | none => rfl
      | some guid => exact if_pos (keeps guid asked)
    · obtain ⟨guid, asked, refused⟩ : ∃ guid ∈ d.guid, ¬ Guid.accepts guid.toList = true := by
        simpa [TypeDecl.Keeps] using keeps
      refine ⟨.malformedGuid guid, ?_, rfl, rfl, ⟨guid, asked, rfl⟩, rfl⟩
      rw [Option.mem_def.mp asked]
      exact if_neg refused
  · apply forall₂_rule <;> intro keeps
    · cases asked : d.manualId with
      | none => rfl
      | some id => exact if_neg (UInt32.not_lt.mpr (keeps id asked))
    · obtain ⟨id, asked, above⟩ : ∃ id ∈ d.manualId, limits.maxId < id := by
        simpa [TypeDecl.Keeps] using keeps
      refine ⟨.idAboveLimit id limits.maxId, ?_, rfl, rfl, ⟨id, asked, rfl⟩, rfl⟩
      rw [Option.mem_def.mp asked]
      exact if_pos above

theorem sound_iff_flawless : d.sound limits = true ↔ Flawless limits d := by
  have complete : ∀ rule, rule ∈ Rule.all := by
    intro rule
    cases rule <;> decide
  have count : (d.broken limits).length = (d.defects limits).length :=
    (broken_defects limits d).length_eq
  rw [TypeDecl.sound, List.isEmpty_iff_length_eq_zero, ← count, List.length_eq_zero_iff,
    TypeDecl.broken, List.filter_eq_nil_iff]
  simp [Flawless, complete]

theorem forall₂_flatMap {α β γ : Type} {R : β → γ → Prop} {f : α → List β} {g : α → List γ}
    (each : ∀ a, (f a).Forall₂ R (g a)) (l : List α) : (l.flatMap f).Forall₂ R (l.flatMap g) := by
  induction l with
  | nil => exact .nil
  | cons a rest ih => exact List.rel_append (each a) ih

theorem breaches_reported (limits : Limits) (kind : Kind) (declarations : List TypeDecl) :
    (breaches limits kind declarations).Forall₂ (ReportsBreach limits)
      ((ofKind kind declarations).flatMap (TypeDecl.defectReports limits)) := by
  apply forall₂_flatMap
  intro d
  rw [TypeDecl.defectReports, List.forall₂_map_left_iff, List.forall₂_map_right_iff]
  exact broken_defects limits d

end Breaches

section Selection
variable {α : Type} {l chosen : List α} {P : Nat → α → Prop}

theorem selects_filter {q : α → Bool} (same : ∀ i a, l[i]? = some a → (q a = true ↔ P i a)) :
    Selects l P (l.filter q) := by
  refine ⟨(l.zipIdx.filter (q ·.1)).map Prod.snd, ?_, ?_, ?_⟩
  · have ascending : (l.zipIdx.map Prod.snd).Pairwise (· < ·) := by
      rw [List.zipIdx_map_snd]
      exact List.pairwise_lt_range'
    exact ascending.sublist (List.filter_sublist.map _)
  · intro i
    simp only [List.mem_map, List.mem_filter, List.mem_zipIdx_iff_getElem?]
    constructor
    · rintro ⟨⟨a, _⟩, ⟨here, passes⟩, rfl⟩
      exact ⟨a, here, (same _ a here).mp passes⟩
    · rintro ⟨a, here, holds⟩
      exact ⟨(a, i), ⟨here, (same i a here).mpr holds⟩, rfl⟩
  · have values : l.filter q = (l.zipIdx.filter (q ·.1)).map Prod.fst := by
      have moved : (l.zipIdx.map Prod.fst).filter q = _ := List.filter_map
      rwa [List.zipIdx_map_fst] at moved
    rw [values, List.forall₂_map_left_iff, List.forall₂_map_right_iff, List.forall₂_same]
    intro ⟨a, i⟩ member
    exact List.mem_zipIdx_iff_getElem?.mp (List.mem_of_mem_filter member)

/-- At least two are chosen exactly if two positions are. -/
theorem Selects.two_iff (selects : Selects l P chosen) : 1 < chosen.length ↔
    ∃ (i j : Nat) (a b : α), i ≠ j ∧ l[i]? = some a ∧ l[j]? = some b ∧ P i a ∧ P j b := by
  obtain ⟨positions, ascending, all, values⟩ := selects
  rw [← values.length_eq]
  constructor
  · intro two
    match positions, ascending, two with
    | i :: j :: rest, ascending, _ =>
      obtain ⟨a, at_i, left⟩ := (all i).mp (by simp)
      obtain ⟨b, at_j, right⟩ := (all j).mp (by simp)
      have lt : i < j := List.rel_of_pairwise_cons ascending (by simp)
      exact ⟨i, j, a, b, Nat.ne_of_lt lt, at_i, at_j, left, right⟩
  · rintro ⟨i, j, a, b, apart, at_i, at_j, left, right⟩
    have first := (all i).mpr ⟨a, at_i, left⟩
    have second := (all j).mpr ⟨b, at_j, right⟩
    match positions, first, second with
    | [k], first, second =>
      simp only [List.mem_singleton] at first second
      omega
    | _ :: _ :: rest, _, _ => simp

end Selection

section Screening
variable (limits : Limits) (kind : Kind) (declarations : List TypeDecl)

theorem bearers_selected (name : String) : Selects declarations (fun _ => Bears limits kind name)
    (bearers name (soundOf limits kind declarations)) := by
  rw [bearers, soundOf, ofKind, List.filter_filter, List.filter_filter]
  apply selects_filter
  intro i d _
  simp only [Bears, Bool.and_eq_true, decide_eq_true_eq, sound_iff_flawless]
  constructor
  · rintro ⟨⟨named, flawless⟩, own⟩
    exact ⟨own, flawless, named⟩
  · rintro ⟨own, flawless, named⟩
    exact ⟨⟨named, flawless⟩, own⟩

theorem isShared_iff (name : String) : isShared (soundOf limits kind declarations) name = true ↔
    SharedName limits kind declarations name := by
  rw [isShared, decide_eq_true_eq]
  exact (bearers_selected limits kind declarations name).two_iff

theorem candidates_selected : Selects declarations (Unambiguous limits kind declarations)
    (candidatesOf limits kind declarations) := by
  have kept : candidatesOf limits kind declarations = declarations.filter fun d =>
      (!isShared (soundOf limits kind declarations) d.name && d.sound limits) && d.kind = kind := by
    rw [candidatesOf_eq, soundOf, List.filter_filter, ofKind, List.filter_filter]
  rw [kept]
  apply selects_filter
  intro i d at_i
  have alone : ¬ SharedName limits kind declarations d.name → Bears limits kind d.name d →
      ∀ (j : Nat) e, declarations[j]? = some e → Bears limits kind d.name e → j = i := by
    intro unshared bears j e at_j rival
    by_contra apart
    exact unshared ⟨j, i, e, d, apart, at_j, at_i, rival, bears⟩
  simp only [Bool.and_eq_true, Bool.not_eq_true', ← Bool.not_eq_true, isShared_iff,
    sound_iff_flawless, decide_eq_true_eq]
  constructor
  · rintro ⟨⟨unshared, flawless⟩, own⟩
    exact ⟨own, flawless, alone unshared ⟨own, flawless, rfl⟩⟩
  · rintro ⟨own, flawless, only⟩
    refine ⟨⟨?_, flawless⟩, own⟩
    rintro ⟨j, k, e, f, apart, at_j, at_k, left, right⟩
    exact apart ((only j e at_j left).trans (only k f at_k right).symm)

theorem sharedName_reported (name : String) : ReportsShared limits kind declarations name
    (sharedNameReport kind (soundOf limits kind declarations) name) :=
  ⟨_, _, bearers_selected limits kind declarations name, firstPlace_placed _, rfl⟩

theorem mem_sharedNames_iff (name : String) :
    name ∈ (sharedNames (soundOf limits kind declarations)).toList ↔
      SharedName limits kind declarations name := by
  rw [mem_sharedNames, ← isShared_iff, and_iff_right_iff_imp]
  intro shared
  have some : 0 < (bearers name (soundOf limits kind declarations)).length :=
    Nat.lt_trans Nat.zero_lt_one (of_decide_eq_true shared)
  obtain ⟨d, member⟩ := List.exists_mem_of_length_pos some
  exact ⟨d, (List.mem_filter.mp member).1, of_decide_eq_true (List.mem_filter.mp member).2⟩

/-- What screening keeps and reports, over every list of declarations: it keeps those that are
    flawless and whose name no other flawless one bears, and reports every breach and then every
    shared name. -/
theorem screening_exact : ScreensExactly limits kind declarations
    (screen limits kind declarations) where
  candidates := candidates_selected limits kind declarations
  names := candidate_names_nodup limits kind declarations
  reports := by
    refine ⟨_, _, (sharedNames (soundOf limits kind declarations)).toList, rfl,
      breaches_reported limits kind declarations, ?_, mem_sharedNames_iff limits kind declarations,
      ?_⟩
    · exact (sharedNames _).ascending.imp compareOfLessAndEq_eq_lt.mp
    · refine List.forall₂_map_right_iff.mpr (List.forall₂_same.mpr fun name _ => ?_)
      exact sharedName_reported limits kind declarations name

end Screening
end EcsPlan
