import EcsPlan.CommandLine
import EcsPlan.Proofs.QueryMeaning
import EcsPlan.Proofs.Scheduling

namespace EcsPlan

/-- Nothing that was put in is missing from what comes out. -/
structure Plan.Lossless (p : Plan) (declarations : List TypeDecl) (queries : List QueryDecl) :
    Prop where
  registries : ∀ kind, ∃ r, (p.registry kind).value? = some r ∧
    r.entries.length = declarations.countP (·.kind = kind)
  queries : ∃ cs, p.queries.value? = some cs ∧ cs.length = queries.length
  schedule : p.schedule.isRejected = false

def ErrorFree (ds : List Diagnostic) : Prop := ∀ d ∈ ds, d.isError = false

theorem errorFree_append {ds es : List Diagnostic} :
    ErrorFree (ds ++ es) ↔ ErrorFree ds ∧ ErrorFree es := by
  simp [ErrorFree, or_imp, forall_and]

theorem errorFree_flatMap {α : Type} {l : List α} {reports : α → List Diagnostic} :
    ErrorFree (l.flatMap reports) ↔ ∀ x ∈ l, ErrorFree (reports x) := by
  simp only [ErrorFree, List.mem_flatMap]
  exact ⟨fun all x member d found => all d ⟨x, member, found⟩,
    fun all d ⟨x, member, found⟩ => all x member d found⟩

theorem errorFree_iff_nil {ds : List Diagnostic} (errors : ∀ d ∈ ds, d.isError = true) :
    ErrorFree ds ↔ ds = [] := by
  constructor
  · intro free
    apply List.eq_nil_iff_forall_not_mem.mpr
    intro d member
    have clean := free d member
    rw [errors d member] at clean
    contradiction
  · intro empty d member
    rw [empty] at member
    contradiction

theorem defect_isError (kind : Kind) (name : String) (place : Option Place) (cause : Defect) :
    (Finding.defect kind name place cause).diagnostic.isError = true := by
  cases cause <;> rfl

section Register
variable {limits : Limits} {declarations : List TypeDecl} {kind : Kind}

theorem screen_isError {d : Diagnostic}
    (member : d ∈ (screen limits kind declarations).diagnostics) : d.isError = true := by
  rcases screen_reports member with ⟨x, _, cause, _, rfl⟩ | ⟨name, _, rfl⟩
  · exact defect_isError _ _ _ _
  · rfl

theorem registry_isError {d : Diagnostic}
    (member : d ∈ (registry limits declarations kind).diagnostics) : d.isError = true := by
  rw [registry_diagnostics] at member
  rcases List.mem_append.mp member with screened | numbered
  · exact screen_isError screened
  · rcases numbering_reports numbered with ⟨id, names, place, rfl⟩ | ⟨highest, rfl⟩
    · rfl
    · rfl

/-- A registry reports nothing exactly if it is accepted with an entry for each
    declaration of its kind. -/
theorem registry_silent_iff : (registry limits declarations kind).diagnostics = [] ↔
    ∃ r, (registry limits declarations kind).value? = some r ∧
      r.entries.length = (ofKind kind declarations).length := by
  constructor
  · intro silent
    by_cases within : WithinLimit kind limits.maxId (candidatesOf limits kind declarations)
    · obtain ⟨value, reports⟩ := registry_within within
      rw [silent] at reports
      obtain ⟨screened, contested⟩ := List.append_eq_nil_iff.mp reports.symm
      refine ⟨_, value, ?_⟩
      rw [← screen_silent_iff.mp screened]
      exact assigned_all_iff.mpr contested
    · rw [registry_beyond within] at silent
      simp [Outcome.diagnostics] at silent
  · intro counted
    obtain ⟨r, accepted, full⟩ := counted
    obtain ⟨within, rfl⟩ := registry_value accepted
    -- entries are at most the candidates, and these at most the declarations
    have fewer := assigned_length_le kind (candidatesOf limits kind declarations)
    have all : candidatesOf limits kind declarations = ofKind kind declarations :=
      (candidates_sublist limits kind declarations).eq_of_length_le (full.symm.le.trans fewer)
    rw [(registry_within within).2, screen_silent_iff.mpr all, List.nil_append]
    refine assigned_all_iff.mp (full.trans ?_)
    rw [all]

theorem registry_covers_iff {r : Registry}
    (accepted : (registry limits declarations kind).value? = some r) :
    (registry limits declarations kind).diagnostics = [] ↔
      ∀ d ∈ ofKind kind declarations, ∃ e ∈ r.entries, e.owner = d := by
  obtain ⟨within, rfl⟩ := registry_value accepted
  rw [(registry_within within).2, List.append_eq_nil_iff, screen_silent_iff,
    contests_eq_nil_iff]
  constructor
  · intro silent d own
    obtain ⟨all, free⟩ := silent
    rw [← all] at own
    exact mem_owners.mpr ⟨own, free d own⟩
  · intro owned
    have candidate : ∀ d ∈ ofKind kind declarations,
        d ∈ candidatesOf limits kind declarations := fun d own =>
      (mem_owners.mp (owned d own)).1
    constructor
    · apply candidates_eq_iff.mpr
      intro d own
      obtain ⟨sound, alone⟩ := mem_candidatesOf.mp (candidate d own)
      exact ⟨(List.mem_filter.mp sound).2, alone⟩
    · intro d member
      exact (mem_owners.mp (owned d (candidate_of_kind member))).2

theorem registry_complete_iff : (∃ r, registry limits declarations kind = .complete r) ↔
    ∃ r, (registry limits declarations kind).value? = some r ∧
      ∀ d ∈ ofKind kind declarations, ∃ e ∈ r.entries, e.owner = d := by
  apply exists_congr
  intro r
  rw [Outcome.complete_iff (registry_settled limits declarations kind)]
  exact and_congr_right fun accepted => registry_covers_iff accepted

end Register

section Queries
variable {tables : NameTables} {q : QueryDecl}

theorem query_errorFree_iff :
    ErrorFree (q.reports tables) ↔ (q.resolve? tables).isSome = true := by
  have warned : ErrorFree (if q.contradictions.isEmpty then [] else
      [(Finding.contradiction q.name q.contradictions.toList q.place).diagnostic]) := by
    intro d member
    split at member
    · contradiction
    · rw [List.mem_singleton.mp member]
      rfl
  rw [QueryDecl.reports, errorFree_append, and_iff_right warned, QueryDecl.resolve?]
  cases (q.unresolved tables).isEmpty with
  | true => simp [ErrorFree]
  | false => simp [ErrorFree, Diagnostic.isError, Finding.diagnostic, Finding.code, Code.severity]

end Queries

theorem systems_errorFree_iff (entries : List Entry) :
    ErrorFree (schedule entries).diagnostics ↔ (schedule entries).isRejected = false := by
  have warned : ErrorFree (unknownRelations entries) := by
    intro d member
    obtain ⟨_, _, _, _, rfl⟩ := unknownRelations_report member
    rfl
  simp only [schedule]
  cases arrange (systemNodes entries) with
  | ordered order =>
    rw [Outcome.usable_diagnostics, Outcome.not_isRejected_iff, Outcome.usable_value?]
    exact iff_of_true warned ⟨_, rfl⟩
  | blocked ids =>
    refine iff_of_false (fun free => ?_) (by simp [Outcome.isRejected])
    have cycle := (errorFree_append.mp free).2 _ (List.mem_singleton_self _)
    contradiction

section Passes
variable (limits : Limits) (declarations : List TypeDecl) (queries : List QueryDecl)

theorem compile?_isSome {p : Plan} {q : QueryDecl} :
    (p.compile? q).isSome = (q.resolve? p.tables).isSome := by
  simp [Plan.compile?]

theorem queries_errorFree_iff :
    ErrorFree (Plan.make limits declarations queries).queries.diagnostics ↔
      ∃ cs, (Plan.make limits declarations queries).queries.value? = some cs ∧
        cs.length = queries.length := by
  rw [queries_diagnostics rfl, errorFree_flatMap, queries_value rfl]
  simp only [query_errorFree_iff, ← compile?_isSome, Option.some.injEq, exists_eq_left',
    List.filterMap_length_eq_length]

theorem schedule_errorFree_iff :
    ErrorFree (Plan.make limits declarations queries).schedule.diagnostics ↔
      (Plan.make limits declarations queries).schedule.isRejected = false := by
  change ErrorFree (scheduleSystems (registry limits declarations .system)).diagnostics ↔ _ = _
  cases accepted : (registry limits declarations .system).value? with
  | none =>
    simp only [Plan.make, scheduleSystems, accepted]
    refine iff_of_false (fun free => ?_) (by simp [Outcome.isRejected])
    have missing := free _ (List.mem_singleton_self _)
    contradiction
  | some r =>
    rw [schedule_of_registry limits declarations queries accepted]
    simp only [scheduleSystems, accepted]
    exact systems_errorFree_iff r.entries

theorem registry_errorFree_iff (kind : Kind) :
    ErrorFree ((Plan.make limits declarations queries).registry kind).diagnostics ↔
      ∃ r, ((Plan.make limits declarations queries).registry kind).value? = some r ∧
        r.entries.length = declarations.countP (·.kind = kind) := by
  rw [plan_registry, errorFree_iff_nil fun d member => registry_isError member,
    registry_silent_iff, ofKind_length]

theorem errorFree_iff_lossless :
    ErrorFree (Plan.make limits declarations queries).diagnostics ↔
      (Plan.make limits declarations queries).Lossless declarations queries := by
  have registries := registry_errorFree_iff limits declarations queries
  simp only [Plan.diagnostics, errorFree_append, queries_errorFree_iff, schedule_errorFree_iff]
  constructor
  · intro clean
    obtain ⟨⟨⟨⟨⟨components, tags⟩, queryables⟩, systems⟩, compiled⟩, scheduled⟩ := clean
    have full : ∀ kind,
        ErrorFree ((Plan.make limits declarations queries).registry kind).diagnostics := by
      intro kind
      cases kind with
      | component => exact components
      | tag => exact tags
      | queryable => exact queryables
      | system => exact systems
    exact ⟨fun kind => (registries kind).mp (full kind), compiled, scheduled⟩
  · intro lossless
    obtain ⟨full, compiled, scheduled⟩ := lossless
    have clean := fun kind => (registries kind).mpr (full kind)
    exact ⟨⟨⟨⟨⟨clean .component, clean .tag⟩, clean .queryable⟩, clean .system⟩, compiled⟩,
      scheduled⟩

end Passes

theorem hasErrors_iff (p : Plan) : p.hasErrors = false ↔ ErrorFree p.diagnostics := by
  simp [Plan.hasErrors, ErrorFree]

theorem count_error_iff (r : Report) : r.count .error = 0 ↔ ErrorFree r.plan.diagnostics := by
  simp [Report.count, Report.diagnostics, List.countP_eq_zero, ErrorFree, Diagnostic.isError]

theorem exitCode_iff (r : Report) : r.exitCode = 0 ↔ ErrorFree r.plan.diagnostics := by
  rw [← count_error_iff, Report.exitCode]
  split <;> simp_all

open CommandLine in
theorem respond_exitCode (o : Options) (s : Snapshot) :
    (o.respond s).exitCode = (o.report s).exitCode := by
  unfold Options.respond
  cases o.output <;> rfl

open CommandLine in
theorem report_plan (o : Options) (s : Snapshot) :
    (o.report s).plan = Plan.make (o.report s).limits s.declarations s.queries := by
  unfold Options.report
  cases o.maxId <;> rfl

/-- A pass reports an error exactly if it loses something, the command succeeds exactly
    if nothing was lost, and a registry is complete exactly if none of its kind was. -/
theorem errors_are_losses (limits : Limits) (declarations : List TypeDecl)
    (queries : List QueryDecl) :
    let plan := Plan.make limits declarations queries
    (plan.hasErrors = false ↔ plan.Lossless declarations queries) ∧
      ((Report.mk limits plan).count .error = 0 ↔ plan.Lossless declarations queries) ∧
      (∀ (o : CommandLine.Options) (s : Snapshot), (o.respond s).exitCode = 0 ↔
        (o.report s).plan.Lossless s.declarations s.queries) ∧
      ∀ kind, (∃ r, plan.registry kind = .complete r) ↔
        ∃ r, (plan.registry kind).value? = some r ∧
          ∀ d ∈ declarations, d.kind = kind → ∃ e ∈ r.entries, e.owner = d := by
  intro plan
  have lossless := errorFree_iff_lossless limits declarations queries
  refine ⟨(hasErrors_iff plan).trans lossless, (count_error_iff _).trans lossless, ?_, ?_⟩
  · intro o s
    rw [respond_exitCode, exitCode_iff, report_plan]
    exact errorFree_iff_lossless _ s.declarations s.queries
  · intro kind
    rw [plan_registry, registry_complete_iff]
    simp only [mem_ofKind, and_imp]

end EcsPlan
