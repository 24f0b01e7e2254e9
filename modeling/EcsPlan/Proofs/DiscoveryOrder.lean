import EcsPlan.Proofs.Losses

/-!
Declarations come in whatever order they were found in. What a pass makes of them
does not depend on it: the candidates are the same up to their order, they have names
of their own, and so sorting and numbering them forgets that order. Only a report on
one declaration moves with it, and a report on several may stand at another of them.
-/
namespace EcsPlan

/-- A report without the place where it stands. -/
def Diagnostic.unplaced (d : Diagnostic) : Code × Severity × String :=
  (d.code, d.severity, d.message)

def Code.isSingle : Code → Bool
  | .structuralDefect | .notUnmanaged | .tagHasFields | .nestedInGeneric | .malformedGuid
  | .manualIdAboveLimit => true
  | _ => false

def singles (ds : List Diagnostic) : List Diagnostic := ds.filter (·.code.isSingle)

def groups (ds : List Diagnostic) : List Diagnostic := ds.filter (!·.code.isSingle)

/-- One outcome up to the order of the reports on single declarations and to the
    places of the others. -/
structure Outcome.Alike {α : Type} (o p : Outcome α) : Prop where
  status : o.statusText = p.statusText
  value : o.value? = p.value?
  reports : (o.diagnostics.map Diagnostic.unplaced).Perm (p.diagnostics.map Diagnostic.unplaced)
  singles : (singles o.diagnostics).Perm (singles p.diagnostics)
  groups : (groups o.diagnostics).map Diagnostic.unplaced =
    (groups p.diagnostics).map Diagnostic.unplaced

section Screening
variable (limits : Limits) (kind : Kind) {left right : List TypeDecl}

theorem bearers_length_eq (perm : left.Perm right) (name : String) :
    (bearers name left).length = (bearers name right).length :=
  (perm.filter _).length_eq

theorem isShared_eq (perm : left.Perm right) : isShared left = isShared right := by
  funext name
  rw [isShared, isShared, bearers_length_eq perm]

theorem sharedNames_eq (perm : left.Perm right) : sharedNames left = sharedNames right := by
  apply SortedSet.ofList_congr
  rw [isShared_eq perm]
  intro name
  exact ((perm.map _).filter _).mem_iff

theorem soundOf_perm (perm : left.Perm right) :
    (soundOf limits kind left).Perm (soundOf limits kind right) :=
  (perm.filter _).filter _

theorem candidatesOf_perm (perm : left.Perm right) :
    (candidatesOf limits kind left).Perm (candidatesOf limits kind right) := by
  have sound := soundOf_perm limits kind perm
  rw [candidatesOf_eq, candidatesOf_eq, isShared_eq sound]
  exact sound.filter _

end Screening

section Numbering
variable (kind : Kind) {left right : List TypeDecl}

theorem unpinned_eq (perm : left.Perm right) (names : (left.map (·.name)).Nodup) :
    unpinned kind left = unpinned kind right := by
  apply mergeSort_eq_of_perm kind.order (perm.filter _)
  intro a inA b inB same
  -- only here it matters that screening has dropped the bearers of shared names
  exact List.inj_on_of_nodup_map names (List.mem_of_mem_filter inA) (List.mem_of_mem_filter inB)
    (order_eq_names same)

theorem requestedIds_eq (perm : left.Perm right) : requestedIds left = requestedIds right := by
  apply SortedSet.ofList_congr
  intro id
  exact (perm.filterMap _).mem_iff

theorem requesters_perm (perm : left.Perm right) (id : UInt32) :
    (requesters left id).Perm (requesters right id) :=
  perm.filter _

theorem grant_eq (perm : left.Perm right) : grant left = grant right := by
  funext id
  apply Option.ext
  intro e
  rw [grant_eq_some_iff, grant_eq_some_iff, ← List.perm_singleton, ← List.perm_singleton,
    (requesters_perm perm id).congr_left]

theorem grantedEntries_eq (perm : left.Perm right) :
    grantedEntries left = grantedEntries right := by
  rw [grantedEntries, requestedIds_eq perm, grant_eq perm]
  rfl

theorem filledSlots_eq (perm : left.Perm right) (names : (left.map (·.name)).Nodup) :
    filledSlots kind left = filledSlots kind right := by
  rw [filledSlots, grantedEntries_eq perm, unpinned_eq kind perm names]
  rfl

theorem takenSlots_eq (perm : left.Perm right) (names : (left.map (·.name)).Nodup) :
    takenSlots kind left = takenSlots kind right := by
  rw [takenSlots, grantedEntries_eq perm, filledSlots_eq kind perm names]
  rfl

theorem assigned_eq (perm : left.Perm right) (names : (left.map (·.name)).Nodup) :
    assigned kind left = assigned kind right := by
  rw [assigned, grantedEntries_eq perm, filledSlots_eq kind perm names]
  rfl

theorem sortNames_eq {names others : List String} (perm : names.Perm others) :
    sortNames names = sortNames others :=
  mergeSort_eq_of_perm compare perm fun _ _ _ _ same => Std.LawfulEqCmp.eq_of_compare same

theorem contest_unplaced (candidates : List TypeDecl) (id : UInt32) :
    (contest kind candidates id).map Diagnostic.unplaced =
      if (requesters candidates id).length ≤ 1 then none else
        some (Finding.contestedId kind id
          (sortNames ((requesters candidates id).map (·.name))) none).diagnostic.unplaced := by
  unfold contest
  rcases requesters candidates id with _ | ⟨d, _ | ⟨next, rest⟩⟩
  · rfl
  · rfl
  · simp only [List.length_cons, Option.map_some]
    rw [if_neg (by omega)]
    rfl

theorem contests_unplaced_eq (perm : left.Perm right) :
    (contests kind left).map Diagnostic.unplaced =
      (contests kind right).map Diagnostic.unplaced := by
  rw [contests, contests, List.map_filterMap, List.map_filterMap, requestedIds_eq perm]
  apply List.filterMap_congr
  intro id _
  have group := requesters_perm perm id
  rw [contest_unplaced, contest_unplaced, group.length_eq, sortNames_eq (group.map _)]

theorem withinLimit_iff (maxId : UInt32) (perm : left.Perm right)
    (names : (left.map (·.name)).Nodup) :
    WithinLimit kind maxId left ↔ WithinLimit kind maxId right := by
  rw [WithinLimit, WithinLimit, takenSlots_eq kind perm names]

/-- A numbering forgets the order of its candidates, except for the places of contests. -/
theorem numbering_eq (maxId : UInt32) (perm : left.Perm right)
    (names : (left.map (·.name)).Nodup) :
    (numbering kind maxId left).value? = (numbering kind maxId right).value? ∧
      (numbering kind maxId left).diagnostics.map Diagnostic.unplaced =
        (numbering kind maxId right).diagnostics.map Diagnostic.unplaced := by
  have same := withinLimit_iff kind maxId perm names
  by_cases within : WithinLimit kind maxId left
  · rw [numbering_within within, numbering_within (same.mp within)]
    simp only [Outcome.usable_value?, Outcome.usable_diagnostics, assigned_eq kind perm names,
      contests_unplaced_eq kind perm, and_self]
  · have shown : shownHighest kind left = shownHighest kind right := by
      rw [shownHighest, shownHighest, takenSlots_eq kind perm names]
    rw [numbering_beyond within, numbering_beyond fun inside => within (same.mpr inside), shown]
    simp only [Outcome.value?, Outcome.diagnostics, List.map_append, contests_unplaced_eq kind perm,
      and_self]

end Numbering

section Reports
variable {limits : Limits} {kind : Kind} {left right : List TypeDecl}

theorem singles_append (ds es : List Diagnostic) :
    singles (ds ++ es) = singles ds ++ singles es := List.filter_append ..

theorem groups_append (ds es : List Diagnostic) :
    groups (ds ++ es) = groups ds ++ groups es := List.filter_append ..

theorem reports_perm {ds es : List Diagnostic} (one : (singles ds).Perm (singles es))
    (many : (groups ds).map Diagnostic.unplaced = (groups es).map Diagnostic.unplaced) :
    (ds.map Diagnostic.unplaced).Perm (es.map Diagnostic.unplaced) := by
  have split (l : List Diagnostic) : ((singles l).map Diagnostic.unplaced ++
      (groups l).map Diagnostic.unplaced).Perm (l.map Diagnostic.unplaced) := by
    rw [← List.map_append]
    exact (List.filter_append_perm _ _).map _
  refine (split ds).symm.trans (.trans ?_ (split es))
  rw [many]
  exact (one.map _).append_right _

theorem defectReports_single {d : TypeDecl} {report : Diagnostic}
    (member : report ∈ d.defectReports limits) : report.code.isSingle = true := by
  obtain ⟨cause, _, rfl⟩ := List.mem_map.mp member
  cases cause <;> rfl

theorem split_of_single (ds : List Diagnostic) (one : ∀ d ∈ ds, d.code.isSingle = true) :
    singles ds = ds ∧ groups ds = [] := by
  constructor
  · exact List.filter_eq_self.mpr one
  · apply List.filter_eq_nil_iff.mpr
    intro d member
    simp [one d member]

theorem split_of_group (ds : List Diagnostic) (many : ∀ d ∈ ds, d.code.isSingle = false) :
    singles ds = [] ∧ groups ds = ds := by
  constructor
  · apply List.filter_eq_nil_iff.mpr
    intro d member
    simp [many d member]
  · apply List.filter_eq_self.mpr
    intro d member
    simp [many d member]

def sharedReports (limits : Limits) (kind : Kind) (declarations : List TypeDecl) :
    List Diagnostic :=
  (sharedNames (soundOf limits kind declarations)).toList.map
    (sharedNameReport kind (soundOf limits kind declarations))

theorem sharedReports_group {declarations : List TypeDecl} {d : Diagnostic}
    (member : d ∈ sharedReports limits kind declarations) : d.code.isSingle = false := by
  obtain ⟨name, _, rfl⟩ := List.mem_map.mp member
  rfl

theorem screen_split (limits : Limits) (kind : Kind) (declarations : List TypeDecl) :
    singles (screen limits kind declarations).diagnostics =
        (ofKind kind declarations).flatMap (TypeDecl.defectReports limits) ∧
      groups (screen limits kind declarations).diagnostics =
        sharedReports limits kind declarations := by
  have one : ∀ d ∈ (ofKind kind declarations).flatMap (TypeDecl.defectReports limits),
      d.code.isSingle = true := by
    intro d member
    obtain ⟨x, _, reported⟩ := List.mem_flatMap.mp member
    exact defectReports_single reported
  have both : (screen limits kind declarations).diagnostics =
      (ofKind kind declarations).flatMap (TypeDecl.defectReports limits) ++
        sharedReports limits kind declarations := rfl
  have alone := split_of_single _ one
  have many := split_of_group (sharedReports limits kind declarations) fun _ =>
    sharedReports_group
  rw [both, singles_append, groups_append, alone.1, alone.2, many.1, many.2, List.append_nil,
    List.nil_append]
  exact ⟨rfl, rfl⟩

theorem sharedNameReport_unplaced (kind : Kind) (declarations : List TypeDecl) (name : String) :
    (sharedNameReport kind declarations name).unplaced =
      (Finding.sharedName kind name (bearers name declarations).length none).diagnostic.unplaced :=
  rfl

theorem sharedReports_unplaced_eq (limits : Limits) (kind : Kind) (perm : left.Perm right) :
    (sharedReports limits kind left).map Diagnostic.unplaced =
      (sharedReports limits kind right).map Diagnostic.unplaced := by
  have sound := soundOf_perm limits kind perm
  simp only [sharedReports, List.map_map, sharedNames_eq sound]
  apply List.map_congr_left
  intro name _
  rw [Function.comp_apply, Function.comp_apply, sharedNameReport_unplaced,
    sharedNameReport_unplaced, bearers_length_eq sound]

theorem reports_alike (limits : Limits) (kind : Kind) (perm : left.Perm right)
    {ds es : List Diagnostic} (many : ∀ d ∈ ds ++ es, d.code.isSingle = false)
    (same : ds.map Diagnostic.unplaced = es.map Diagnostic.unplaced) :
    (singles ((screen limits kind left).diagnostics ++ ds)).Perm
        (singles ((screen limits kind right).diagnostics ++ es)) ∧
      (groups ((screen limits kind left).diagnostics ++ ds)).map Diagnostic.unplaced =
        (groups ((screen limits kind right).diagnostics ++ es)).map Diagnostic.unplaced := by
  have first := split_of_group ds fun d member => many d (List.mem_append_left es member)
  have second := split_of_group es fun d member => many d (List.mem_append_right ds member)
  rw [singles_append, singles_append, groups_append, groups_append, (screen_split ..).1,
    (screen_split ..).2, (screen_split ..).1, (screen_split ..).2, first.1, first.2, second.1,
    second.2, List.map_append, List.map_append, sharedReports_unplaced_eq limits kind perm, same]
  refine ⟨?_, rfl⟩
  rw [List.append_nil, List.append_nil]
  exact (perm.filter _).flatMap_right _

theorem numbering_group {maxId : UInt32} {candidates : List TypeDecl} {d : Diagnostic}
    (member : d ∈ (numbering kind maxId candidates).diagnostics) : d.code.isSingle = false := by
  rcases numbering_reports member with ⟨id, names, place, rfl⟩ | ⟨highest, rfl⟩
  · rfl
  · rfl

end Reports

section Passes
variable {limits : Limits} {left right : List TypeDecl}

theorem alike_of_reports {α : Type} {o p : Outcome α} (left : o.Settled) (right : p.Settled)
    (value : o.value? = p.value?) (one : (singles o.diagnostics).Perm (singles p.diagnostics))
    (many : (groups o.diagnostics).map Diagnostic.unplaced =
      (groups p.diagnostics).map Diagnostic.unplaced) : o.Alike p := by
  have reports := reports_perm one many
  refine ⟨Outcome.statusText_congr left right value ?_, value, reports, one, many⟩
  rw [← List.map_eq_nil_iff (f := Diagnostic.unplaced), ← List.length_eq_zero_iff,
    reports.length_eq, List.length_eq_zero_iff, List.map_eq_nil_iff]

theorem registry_alike (limits : Limits) (perm : left.Perm right) (kind : Kind) :
    (registry limits left kind).Alike (registry limits right kind) := by
  obtain ⟨value, reports⟩ := numbering_eq kind limits.maxId (candidatesOf_perm limits kind perm)
    (candidate_names_nodup limits kind left)
  obtain ⟨one, many⟩ := reports_alike limits kind perm
    (fun d member => (List.mem_append.mp member).elim numbering_group numbering_group) reports
  refine alike_of_reports (registry_settled ..) (registry_settled ..) ?_ ?_ ?_
  · rw [registry_value?, registry_value?, value]
  · rwa [registry_diagnostics, registry_diagnostics]
  · rwa [registry_diagnostics, registry_diagnostics]

theorem compileQueries_eq {components components' tags tags' : Outcome Registry}
    (left : components.value? = components'.value?) (right : tags.value? = tags'.value?)
    (queries : List QueryDecl) :
    compileQueries components tags queries = compileQueries components' tags' queries := by
  simp only [compileQueries, visibleNames, visibleWidth, left, right]

theorem scheduleSystems_eq {systems systems' : Outcome Registry}
    (value : systems.value? = systems'.value?) :
    scheduleSystems systems = scheduleSystems systems' := by
  simp only [scheduleSystems, value]

theorem diagnostics_perm (limits : Limits) (queries : List QueryDecl) (perm : left.Perm right) :
    ((Plan.make limits left queries).diagnostics.map Diagnostic.unplaced).Perm
      ((Plan.make limits right queries).diagnostics.map Diagnostic.unplaced) := by
  have alike := registry_alike limits perm
  have compiled := compileQueries_eq (alike .component).value (alike .tag).value queries
  have scheduled := scheduleSystems_eq (alike .system).value
  simp only [Plan.diagnostics, Plan.make, List.map_append, compiled, scheduled]
  have registries := (((alike .component).reports.append (alike .tag).reports).append
    (alike .queryable).reports).append (alike .system).reports
  exact (registries.append_right _).append_right _

theorem count_eq (limits : Limits) (queries : List QueryDecl) (perm : left.Perm right)
    (severity : Severity) : (Report.mk limits (.make limits left queries)).count severity =
      (Report.mk limits (.make limits right queries)).count severity := by
  have counted (l : List Diagnostic) : l.countP (·.severity = severity) =
      (l.map Diagnostic.unplaced).countP (·.2.1 = severity) := by
    rw [List.countP_map]
    rfl
  rw [Report.count, Report.count, counted, counted]
  exact (diagnostics_perm limits queries perm).countP_eq _

open CommandLine in
theorem exitCode_eq (o : Options) (limits : Limits) (queries : List QueryDecl)
    (perm : left.Perm right) : (o.respond ⟨limits, left, queries⟩).exitCode =
      (o.respond ⟨limits, right, queries⟩).exitCode := by
  have same (run : Limits) : (Report.mk run (.make run left queries)).exitCode =
      (Report.mk run (.make run right queries)).exitCode := by
    rw [Report.exitCode, Report.exitCode, count_eq run queries perm]
  rw [respond_exitCode, respond_exitCode]
  unfold Options.report
  cases o.maxId with
  | none => exact same limits
  | some maxId => exact same { limits with maxId }

end Passes

/-- A pass does not depend on the order in which the declarations were found. -/
theorem pass_of_perm (limits : Limits) {left right : List TypeDecl} (queries : List QueryDecl)
    (perm : left.Perm right) :
    let plan := Plan.make limits left queries
    let other := Plan.make limits right queries
    (∀ kind, (plan.registry kind).Alike (other.registry kind)) ∧
      plan.queries = other.queries ∧ plan.schedule = other.schedule ∧
      (∀ severity, (Report.mk limits plan).count severity =
        (Report.mk limits other).count severity) ∧
      ∀ o : CommandLine.Options, (o.respond ⟨limits, left, queries⟩).exitCode =
        (o.respond ⟨limits, right, queries⟩).exitCode := by
  intro plan other
  have alike := registry_alike limits perm
  refine ⟨fun kind => ?_, compileQueries_eq (alike .component).value (alike .tag).value queries,
    scheduleSystems_eq (alike .system).value, count_eq limits queries perm,
    fun o => exitCode_eq o limits queries perm⟩
  rw [plan_registry, plan_registry]
  exact alike kind

theorem moving_systems_in_any_order :
    [moveSystem, inputSystem].Perm [inputSystem, moveSystem] ∧
      (Plan.make {} [moveSystem, inputSystem] []).schedule =
        (Plan.make {} [inputSystem, moveSystem] []).schedule := by
  have perm := List.Perm.swap inputSystem moveSystem []
  exact ⟨perm, (pass_of_perm {} [] perm).2.2.1⟩

end EcsPlan
