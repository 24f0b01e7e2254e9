import EcsPlan.Screening
import EcsPlan.Proofs.Ascending
import Mathlib.Data.List.Nodup

namespace EcsPlan

def soundOf (limits : Limits) (kind : Kind) (declarations : List TypeDecl) : List TypeDecl :=
  (ofKind kind declarations).filter (TypeDecl.sound limits)

def candidatesOf (limits : Limits) (kind : Kind) (declarations : List TypeDecl) :
    List TypeDecl :=
  (screen limits kind declarations).candidates

theorem mem_ofKind {kind : Kind} {declarations : List TypeDecl} {d : TypeDecl} :
    d ∈ ofKind kind declarations ↔ d ∈ declarations ∧ d.kind = kind := by
  simp [ofKind]

theorem ofKind_length (kind : Kind) (declarations : List TypeDecl) :
    (ofKind kind declarations).length = declarations.countP (·.kind = kind) :=
  List.countP_eq_length_filter.symm

theorem candidatesOf_eq (limits : Limits) (kind : Kind) (declarations : List TypeDecl) :
    candidatesOf limits kind declarations = (soundOf limits kind declarations).filter
      fun d => !isShared (soundOf limits kind declarations) d.name := rfl

theorem mem_candidatesOf {limits : Limits} {kind : Kind} {declarations : List TypeDecl}
    {d : TypeDecl} : d ∈ candidatesOf limits kind declarations ↔
      d ∈ soundOf limits kind declarations ∧
        isShared (soundOf limits kind declarations) d.name = false := by
  rw [candidatesOf_eq, List.mem_filter, Bool.not_eq_true']

theorem candidate_of_kind {limits : Limits} {kind : Kind} {declarations : List TypeDecl}
    {d : TypeDecl} (member : d ∈ candidatesOf limits kind declarations) :
    d ∈ ofKind kind declarations :=
  List.mem_of_mem_filter (mem_candidatesOf.mp member).1

theorem bearers_length (name : String) (declarations : List TypeDecl) :
    (bearers name declarations).length = (declarations.map (·.name)).count name := by
  rw [List.count, List.countP_map, List.countP_eq_length_filter]
  rfl

theorem not_isShared_of_nodup {declarations : List TypeDecl}
    (names : (declarations.map (·.name)).Nodup) (name : String) :
    isShared declarations name = false := by
  rw [isShared, bearers_length, decide_eq_false_iff_not, Nat.not_lt]
  exact List.nodup_iff_count_le_one.mp names name

theorem candidate_names_nodup (limits : Limits) (kind : Kind) (declarations : List TypeDecl) :
    ((candidatesOf limits kind declarations).map (·.name)).Nodup := by
  apply List.nodup_iff_count_le_one.mpr
  intro name
  by_cases borne : name ∈ (candidatesOf limits kind declarations).map (·.name)
  · obtain ⟨d, member, rfl⟩ := List.mem_map.mp borne
    have alone : (bearers d.name (soundOf limits kind declarations)).length ≤ 1 := by
      simpa [isShared] using (mem_candidatesOf.mp member).2
    rw [bearers_length] at alone
    have sub : (candidatesOf limits kind declarations).Sublist
        (soundOf limits kind declarations) := List.filter_sublist
    exact Nat.le_trans ((sub.map _).count_le _) alone
  · rw [List.count_eq_zero_of_not_mem borne]
    exact Nat.zero_le 1

theorem mem_sharedNames {declarations : List TypeDecl} {name : String} :
    name ∈ (sharedNames declarations).toList ↔
      (∃ d ∈ declarations, d.name = name) ∧ isShared declarations name = true := by
  simp [sharedNames]

/-- The first place that a declaration of the group has, if one has a place. -/
inductive FirstPlaced : List TypeDecl → Option Place → Prop where
  | nowhere : FirstPlaced [] none
  | here {d : TypeDecl} {rest : List TypeDecl} {p : Place} (placed : d.place = some p) :
      FirstPlaced (d :: rest) (some p)
  | later {d : TypeDecl} {rest : List TypeDecl} {place : Option Place} (unplaced : d.place = none)
      (first : FirstPlaced rest place) : FirstPlaced (d :: rest) place

theorem firstPlace_placed (group : List TypeDecl) : FirstPlaced group (firstPlace group) := by
  induction group with
  | nil => exact .nowhere
  | cons d rest ih =>
    rw [firstPlace, List.findSome?_cons]
    cases placed : d.place with
    | none => exact .later placed ih
    | some p => exact .here placed

theorem FirstPlaced.eq_firstPlace {group : List TypeDecl} {place : Option Place}
    (first : FirstPlaced group place) : place = firstPlace group := by
  induction first with
  | nowhere => rfl
  | here placed => rw [firstPlace, List.findSome?_cons, placed]
  | later unplaced _ ih =>
    rw [firstPlace, List.findSome?_cons, unplaced]
    exact ih

theorem screen_reports {limits : Limits} {kind : Kind} {declarations : List TypeDecl}
    {d : Diagnostic} (member : d ∈ (screen limits kind declarations).diagnostics) :
    (∃ x ∈ ofKind kind declarations, ∃ cause ∈ x.defects limits,
      d = (Finding.defect x.kind x.name x.place cause).diagnostic) ∨
    ∃ name ∈ (sharedNames (soundOf limits kind declarations)).toList,
      d = sharedNameReport kind (soundOf limits kind declarations) name := by
  simp only [screen, List.mem_append, List.mem_flatMap, List.mem_map] at member
  rcases member with ⟨x, own, reported⟩ | ⟨name, shared, rfl⟩
  · obtain ⟨cause, found, rfl⟩ := List.mem_map.mp reported
    exact .inl ⟨x, own, cause, found, rfl⟩
  · exact .inr ⟨name, shared, rfl⟩

theorem defectReports_eq_nil_iff {limits : Limits} {d : TypeDecl} :
    d.defectReports limits = [] ↔ d.sound limits = true := by
  simp [TypeDecl.defectReports, TypeDecl.sound]

theorem candidates_eq_iff {limits : Limits} {kind : Kind} {declarations : List TypeDecl} :
    candidatesOf limits kind declarations = ofKind kind declarations ↔
      ∀ d ∈ ofKind kind declarations, d.sound limits = true ∧
        isShared (soundOf limits kind declarations) d.name = false := by
  change ((ofKind kind declarations).filter _).filter _ = _ ↔ _
  rw [List.filter_filter, List.filter_eq_self]
  simp [soundOf, and_comm]

theorem screen_silent_iff {limits : Limits} {kind : Kind} {declarations : List TypeDecl} :
    (screen limits kind declarations).diagnostics = [] ↔
      candidatesOf limits kind declarations = ofKind kind declarations := by
  have silent : (screen limits kind declarations).diagnostics = [] ↔
      (∀ d ∈ ofKind kind declarations, d.sound limits = true) ∧
        ∀ name, name ∉ (sharedNames (soundOf limits kind declarations)).toList := by
    simp only [screen, List.append_eq_nil_iff, List.flatMap_eq_nil_iff, List.map_eq_nil_iff,
      defectReports_eq_nil_iff, ← List.eq_nil_iff_forall_not_mem]
    rfl
  rw [silent, candidates_eq_iff]
  constructor
  · intro silent d own
    obtain ⟨sound, none⟩ := silent
    constructor
    · exact sound d own
    apply Bool.eq_false_iff.mpr
    intro shared
    have inside : d ∈ soundOf limits kind declarations :=
      List.mem_filter.mpr ⟨own, sound d own⟩
    exact none d.name (mem_sharedNames.mpr ⟨⟨d, inside, rfl⟩, shared⟩)
  · intro all
    constructor
    · intro d own
      exact (all d own).1
    intro name listed
    obtain ⟨⟨d, inside, rfl⟩, shared⟩ := mem_sharedNames.mp listed
    have alone := (all d (List.mem_of_mem_filter inside)).2
    rw [shared] at alone
    contradiction

theorem candidates_sublist (limits : Limits) (kind : Kind) (declarations : List TypeDecl) :
    (candidatesOf limits kind declarations).Sublist (ofKind kind declarations) :=
  List.filter_sublist.trans List.filter_sublist

def TypeDecl.asking (d : TypeDecl) (id : Option UInt32) : TypeDecl := { d with manualId := id }

theorem defects_eq (limits : Limits) (d : TypeDecl) :
    d.defects limits = (d.asking none).defects {} ++ (match d.manualId with
      | some id => if limits.maxId < id then [.idAboveLimit id limits.maxId] else []
      | none => []) := by
  simp only [TypeDecl.defects, TypeDecl.asking, List.append_nil]
  rfl

theorem sound_iff {limits : Limits} {d : TypeDecl} : d.sound limits = true ↔
    (d.asking none).sound {} = true ∧ ∀ id, d.manualId = some id → id ≤ limits.maxId := by
  rw [TypeDecl.sound, TypeDecl.sound, defects_eq, List.isEmpty_iff, List.append_eq_nil_iff,
    List.isEmpty_iff]
  apply and_congr_right
  intro _
  cases d.manualId <;> simp

/-- One more sound declaration with a name of its own is one more candidate. -/
theorem candidatesOf_cons {limits : Limits} {kind : Kind} {declarations : List TypeDecl}
    {x : TypeDecl} (kindly : x.kind = kind) (sound : x.sound limits = true)
    (fresh : ∀ d ∈ ofKind kind declarations, d.name ≠ x.name) :
    candidatesOf limits kind (x :: declarations) =
      x :: candidatesOf limits kind declarations := by
  have kept : soundOf limits kind (x :: declarations) =
      x :: soundOf limits kind declarations := by
    rw [soundOf, ofKind, List.filter_cons_of_pos (by simpa using kindly),
      List.filter_cons_of_pos sound]
    rfl
  have own : isShared (x :: soundOf limits kind declarations) x.name = false := by
    have nobody : bearers x.name (soundOf limits kind declarations) = [] := by
      apply List.filter_eq_nil_iff.mpr
      intro d inside
      simpa using fresh d (List.mem_of_mem_filter inside)
    rw [isShared, bearers, List.filter_cons_of_pos (by simp), ← bearers, nobody]
    rfl
  have others : ∀ d ∈ soundOf limits kind declarations,
      isShared (x :: soundOf limits kind declarations) d.name =
        isShared (soundOf limits kind declarations) d.name := by
    intro d inside
    have apart := (fresh d (List.mem_of_mem_filter inside)).symm
    rw [isShared, bearers, List.filter_cons_of_neg (by simpa using apart)]
    rfl
  rw [candidatesOf_eq, candidatesOf_eq, kept, List.filter_cons_of_pos (by simp [own])]
  refine congrArg (x :: ·) (List.filter_congr fun d inside => ?_)
  rw [others d inside]

section Renewed
variable {limits : Limits} {kind : Kind} {declarations : List TypeDecl}
  {f : TypeDecl → TypeDecl}

theorem ofKind_map (kinds : ∀ d, (f d).kind = d.kind) :
    ofKind kind (declarations.map f) = (ofKind kind declarations).map f := by
  simp only [ofKind, List.filter_map, Function.comp_def, kinds]

theorem isShared_map (names : ∀ d, (f d).name = d.name) :
    isShared (declarations.map f) = isShared declarations := by
  funext name
  simp only [isShared, bearers_length, List.map_map, Function.comp_def, names]

theorem candidatesOf_map (names : ∀ d, (f d).name = d.name) (kinds : ∀ d, (f d).kind = d.kind)
    (sound : ∀ d ∈ ofKind kind declarations, (f d).sound limits = d.sound limits) :
    candidatesOf limits kind (declarations.map f) =
      (candidatesOf limits kind declarations).map f := by
  have kept : soundOf limits kind (declarations.map f) =
      (soundOf limits kind declarations).map f := by
    rw [soundOf, ofKind_map kinds, List.filter_map]
    exact congrArg (List.map f) (List.filter_congr sound)
  rw [candidatesOf_eq, candidatesOf_eq, kept, isShared_map names, List.filter_map]
  simp only [Function.comp_def, names]

end Renewed
end EcsPlan
