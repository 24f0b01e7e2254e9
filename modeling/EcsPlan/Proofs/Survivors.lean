import EcsPlan.Proofs.Assignments
import EcsPlan.Proofs.DiscoveryOrder

/-!
A second pass over what a pass has kept. Nothing that was dropped held a slot or a
name, and what is left does not stand in its own way, so the second pass keeps all
of it as it was.
-/
namespace EcsPlan

namespace Plan

def numbers (p : Plan) (d : TypeDecl) : Bool :=
  match (p.registry d.kind).value? with
  | some r => r.entries.any (·.owner = d)
  | none => false

def survivors (p : Plan) (declarations : List TypeDecl) : List TypeDecl :=
  declarations.filter p.numbers

def compilable (p : Plan) (queries : List QueryDecl) : List QueryDecl :=
  queries.filter fun q => (p.compile? q).isSome

end Plan

section Survivors
variable {limits : Limits} {declarations : List TypeDecl} {queries : List QueryDecl} {p : Plan}
  {kind : Kind} {r : Registry}

theorem candidate_count {d : TypeDecl} (member : d ∈ candidatesOf limits kind declarations) :
    declarations.count d = 1 := by
  obtain ⟨inSound, alone⟩ := mem_candidatesOf.mp member
  obtain ⟨own, sound⟩ := List.mem_filter.mp inSound
  have kept : (soundOf limits kind declarations).count d = declarations.count d := by
    rw [soundOf, List.count_filter sound, ofKind, List.count_filter]
    exact decide_eq_true (mem_ofKind.mp own).2
  have shared : (soundOf limits kind declarations).count d ≤ 1 := by
    calc (soundOf limits kind declarations).count d
        ≤ ((soundOf limits kind declarations).map (·.name)).count d.name :=
          List.count_le_count_map
      _ = (bearers d.name (soundOf limits kind declarations)).length := (bearers_length _ _).symm
      _ ≤ 1 := by simpa [isShared] using alone
  have present := List.count_pos_iff.mpr inSound
  omega

theorem filter_candidates (limits : Limits) (kind : Kind) (declarations : List TypeDecl) :
    (ofKind kind declarations).filter (· ∈ candidatesOf limits kind declarations) =
      candidatesOf limits kind declarations := by
  have form : candidatesOf limits kind declarations = (ofKind kind declarations).filter
      fun d => !isShared (soundOf limits kind declarations) d.name && d.sound limits :=
    List.filter_filter ..
  refine Eq.trans (List.filter_congr fun d own => ?_) form.symm
  rw [Bool.eq_iff_iff, decide_eq_true_eq, mem_candidatesOf, soundOf, List.mem_filter]
  simp [own, and_comm]

theorem numbers_iff (made : p = .make limits declarations queries)
    (accepted : (registry limits declarations kind).value? = some r) {d : TypeDecl}
    (own : d.kind = kind) : p.numbers d = true ↔ ∃ e ∈ r.entries, e.owner = d := by
  subst made
  rw [Plan.numbers, plan_registry, own, accepted]
  simp

theorem survivors_of_kind (made : p = .make limits declarations queries)
    (accepted : (registry limits declarations kind).value? = some r) :
    ofKind kind (p.survivors declarations) = (candidatesOf limits kind declarations).filter
      (uncontested (candidatesOf limits kind declarations)) := by
  obtain ⟨_, a, _⟩ := registry_assigns accepted
  have kept : ∀ d ∈ ofKind kind declarations, p.numbers d =
      (uncontested (candidatesOf limits kind declarations) d &&
        decide (d ∈ candidatesOf limits kind declarations)) := by
    intro d own
    rw [Bool.eq_iff_iff, numbers_iff made accepted (mem_ofKind.mp own).2, a.mem_owners,
      Bool.and_eq_true, decide_eq_true_eq, and_comm]
  calc ofKind kind (p.survivors declarations)
      = (ofKind kind declarations).filter p.numbers := List.filter_comm ..
    _ = (ofKind kind declarations).filter fun d =>
          uncontested (candidatesOf limits kind declarations) d &&
            decide (d ∈ candidatesOf limits kind declarations) := List.filter_congr kept
    _ = ((ofKind kind declarations).filter (· ∈ candidatesOf limits kind declarations)).filter
          (uncontested (candidatesOf limits kind declarations)) := (List.filter_filter ..).symm
    _ = _ := by rw [filter_candidates]

theorem survivor_candidates (made : p = .make limits declarations queries)
    (accepted : (registry limits declarations kind).value? = some r) :
    candidatesOf limits kind (p.survivors declarations) =
      ofKind kind (p.survivors declarations) := by
  have names : ((ofKind kind (p.survivors declarations)).map (·.name)).Nodup := by
    rw [survivors_of_kind made accepted]
    exact (List.filter_sublist.map _).nodup (candidate_names_nodup limits kind declarations)
  apply candidates_eq_iff.mpr
  intro d own
  constructor
  · rw [survivors_of_kind made accepted] at own
    have candidate := mem_candidatesOf.mp (List.mem_of_mem_filter own)
    exact (List.mem_filter.mp candidate.1).2
  · exact not_isShared_of_nodup ((List.filter_sublist.map _).nodup names) d.name

theorem survivors_assigned (made : p = .make limits declarations queries)
    (accepted : (registry limits declarations kind).value? = some r) :
    Assigns kind (candidatesOf limits kind (p.survivors declarations)) r.entries := by
  obtain ⟨_, a, _⟩ := registry_assigns accepted
  rw [survivor_candidates made accepted, survivors_of_kind made accepted]
  have nodup := (candidate_names_nodup limits kind declarations).of_map
  refine { a with owners := ?_ }
  rw [List.filter_eq_self.mpr]
  · exact a.owners
  · intro d kept
    exact uncontested_of_subset nodup (nodup.filter _) (List.filter_subset_self _) kept
      (List.mem_filter.mp kept).2

theorem registry_of_survivors (made : p = .make limits declarations queries)
    (accepted : (registry limits declarations kind).value? = some r) :
    registry limits (p.survivors declarations) kind = .complete r := by
  obtain ⟨form, a, below⟩ := registry_assigns accepted
  have again : (registry limits (p.survivors declarations) kind).value? = some r := by
    rw [form]
    exact registry_iff_assigns.mpr ⟨survivors_assigned made accepted, below⟩
  refine (Outcome.complete_iff (registry_settled ..) r).mpr ⟨again, ?_⟩
  refine (registry_covers_iff again).mpr fun d own => ?_
  obtain ⟨survived, kindly⟩ := mem_ofKind.mp own
  exact (numbers_iff made accepted kindly).mp (List.mem_filter.mp survived).2

end Survivors

theorem tables_congr {p q : Plan} (components : p.components.value? = q.components.value?)
    (tags : p.tags.value? = q.tags.value?) : p.tables = q.tables := by
  simp only [Plan.tables, visibleNames, components, tags]

theorem compile?_congr {p q : Plan} (components : p.components.value? = q.components.value?)
    (tags : p.tags.value? = q.tags.value?) : p.compile? = q.compile? := by
  funext query
  simp only [Plan.compile?, tables_congr components tags, visibleWidth, components, tags]

theorem filterMap_compilable (p : Plan) (queries : List QueryDecl) :
    (p.compilable queries).filterMap p.compile? = queries.filterMap p.compile? := by
  rw [Plan.compilable, List.filterMap_filter]
  apply List.filterMap_congr
  intro q _
  cases compiled : p.compile? q <;> simp

theorem compiled_reports {p : Plan} {q : QueryDecl} (compiled : (p.compile? q).isSome = true)
    {d : Diagnostic} (reported : d ∈ q.reports p.tables) : d.code = .duplicateUsage := by
  obtain ⟨c, compiled⟩ := Option.isSome_iff_exists.mp compiled
  obtain ⟨r, resolved, _⟩ := Option.map_eq_some_iff.mp compiled
  rw [reports_of_resolved resolved] at reported
  split at reported
  · contradiction
  · rw [List.mem_singleton.mp reported]
    rfl

theorem schedule_reports {entries : List Entry} {d : Diagnostic}
    (reported : d ∈ (schedule entries).diagnostics) :
    d.code = .unknownSystem ∨ d.code = .dependencyCycle := by
  have warned : d ∈ unknownRelations entries → d.code = .unknownSystem := by
    intro member
    obtain ⟨_, _, _, _, rfl⟩ := unknownRelations_report member
    rfl
  simp only [schedule] at reported
  cases found : arrange (systemNodes entries) with
  | ordered order =>
    rw [found, Outcome.usable_diagnostics] at reported
    exact .inl (warned reported)
  | blocked ids =>
    rw [found] at reported
    rcases List.mem_append.mp reported with unknown | cycle
    · exact .inl (warned unknown)
    · rw [List.mem_singleton.mp cycle]
      exact .inr rfl

/-- A pass whose registries are silent and whose queries are all compiled has only
    warnings to report, and a cycle. -/
theorem quiet_reports {limits : Limits} {declarations : List TypeDecl}
    {queries : List QueryDecl} {p : Plan} {r : Registry}
    (made : p = .make limits declarations queries)
    (silent : ∀ kind, (p.registry kind).diagnostics = [])
    (compiled : ∀ q ∈ queries, (p.compile? q).isSome = true)
    (systems : (registry limits declarations .system).value? = some r)
    {d : Diagnostic} (reported : d ∈ p.diagnostics) :
    d.code = .duplicateUsage ∨ d.code = .unknownSystem ∨ d.code = .dependencyCycle := by
  rcases mem_diagnostics.mp reported with ⟨kind, member⟩ | query | order
  · rw [silent kind] at member
    exact False.elim (List.not_mem_nil member)
  · rw [queries_diagnostics made] at query
    obtain ⟨q, given, raised⟩ := List.mem_flatMap.mp query
    exact .inl (compiled_reports (compiled q given) raised)
  · rw [made, schedule_of_registry limits declarations queries systems] at order
    exact .inr (schedule_reports order)

/-- A second pass over what a pass has kept keeps all of it: the same registries, now
    complete, the same queries and the same schedule. It repeats the warnings and a
    cycle and reports nothing else. -/
theorem pass_of_survivors {limits : Limits} {declarations : List TypeDecl}
    {queries : List QueryDecl}
    (accepted : ∀ kind,
      ((Plan.make limits declarations queries).registry kind).isRejected = false) :
    let plan := Plan.make limits declarations queries
    let again := Plan.make limits (plan.survivors declarations) (plan.compilable queries)
    (∀ d ∈ plan.survivors declarations, declarations.count d = 1) ∧
      (∀ kind, ∃ r, (plan.registry kind).value? = some r ∧ again.registry kind = .complete r) ∧
      again.queries.value? = plan.queries.value? ∧
      again.schedule = plan.schedule ∧
      ∀ d ∈ again.diagnostics,
        d.code = .duplicateUsage ∨ d.code = .unknownSystem ∨ d.code = .dependencyCycle := by
  intro plan again
  have registries : ∀ kind, ∃ r, (plan.registry kind).value? = some r ∧
      again.registry kind = .complete r := by
    intro kind
    obtain ⟨r, value⟩ := (Outcome.not_isRejected_iff _).mp (accepted kind)
    rw [plan_registry] at value
    exact ⟨r, by rwa [plan_registry], by rw [plan_registry, registry_of_survivors rfl value]⟩
  have values : ∀ kind, (again.registry kind).value? = (plan.registry kind).value? := by
    intro kind
    obtain ⟨r, value, complete⟩ := registries kind
    rw [complete, value]
    rfl
  have compiler : again.compile? = plan.compile? :=
    compile?_congr (values .component) (values .tag)
  refine ⟨?_, registries, ?_, scheduleSystems_eq (values .system), fun d reported => ?_⟩
  · intro d survived
    obtain ⟨r, value, _⟩ := registries d.kind
    rw [plan_registry] at value
    have own := mem_ofKind.mpr ⟨survived, rfl⟩
    rw [survivors_of_kind rfl value] at own
    exact candidate_count (List.mem_of_mem_filter own)
  · rw [queries_value rfl, queries_value rfl, compiler, filterMap_compilable]
  · obtain ⟨r, value, _⟩ := registries .system
    rw [← values, plan_registry] at value
    refine quiet_reports rfl (fun kind => ?_) (fun q kept => ?_) value reported
    · obtain ⟨_, _, complete⟩ := registries kind
      rw [complete]
      rfl
    · rw [compiler]
      exact (List.mem_filter.mp kept).2

def dragged : QueryDecl := { name := "Dragged", names := ⟨["Drag"], [], []⟩ }

def windy : List TypeDecl := [drag, speed, lift, stunned, inputSystem, moveSystem]

def windyPlan : Plan := .make {} windy [hindered, dragged]

def windyEntries : Kind → List Entry
  | .component => [⟨speed, 0, .auto⟩]
  | .tag => [⟨stunned, 0, .auto⟩]
  | .queryable => []
  | .system => movingSystems.entries

theorem windy_registries (kind : Kind) :
    (windyPlan.registry kind).value? = some (.ofEntries {} kind (windyEntries kind)) := by
  rw [windyPlan, plan_registry]
  apply registry_iff_assigns.mpr
  cases kind <;> decide

theorem windy_accepted (kind : Kind) : (windyPlan.registry kind).isRejected = false :=
  (Outcome.not_isRejected_iff _).mpr ⟨_, windy_registries kind⟩

theorem windy_survivors :
    windyPlan.survivors windy = [speed, stunned, inputSystem, moveSystem] := by
  have known : windyPlan.numbers = fun d => (windyEntries d.kind).any (·.owner = d) := by
    funext d
    rw [Plan.numbers, windy_registries]
    rfl
  rw [Plan.survivors, known]
  decide

theorem windy_pass_of_survivors :
    let again := Plan.make {} [speed, stunned, inputSystem, moveSystem]
      (windyPlan.compilable [hindered, dragged])
    (∀ kind, (windyPlan.registry kind).isRejected = false) ∧
      (∀ kind, ∃ r, (windyPlan.registry kind).value? = some r ∧
        again.registry kind = .complete r) ∧
      again.queries.value? = windyPlan.queries.value? ∧
      again.schedule = windyPlan.schedule := by
  intro again
  obtain ⟨_, registries, queries, order, _⟩ := pass_of_survivors windy_accepted
  rw [show Plan.make {} windy [hindered, dragged] = windyPlan from rfl, windy_survivors]
    at registries queries order
  exact ⟨windy_accepted, registries, queries, order⟩

end EcsPlan
