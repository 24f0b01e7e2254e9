import EcsPlan.Proofs.Survivors

namespace EcsPlan

/-- The codes of a stage: those that leave it a value, and those that close it. -/
structure StageCodes where
  passing : List Code
  closing : List Code
  apart : ∀ c ∈ passing, c ∉ closing

def registryCodes : StageCodes where
  passing := [.structuralDefect, .notUnmanaged, .tagHasFields, .nestedInGeneric, .malformedGuid,
    .manualIdAboveLimit, .duplicateName, .duplicateId]
  closing := [.capacityExceeded]
  apart := by decide

def queryCodes : StageCodes where
  passing := [.unknownReference, .duplicateUsage]
  closing := []
  apart := by decide

def scheduleCodes : StageCodes where
  passing := [.unknownSystem]
  closing := [.dependencyCycle, .scheduleUnavailable]
  apart := by decide

namespace StageCodes

def all (codes : StageCodes) : List Code := codes.passing ++ codes.closing

def Passes (codes : StageCodes) (ds : List Diagnostic) : Prop :=
  ∀ d ∈ ds, ∃ f : Finding, f.code ∈ codes.passing ∧ d = f.diagnostic

theorem passes_append {codes : StageCodes} {ds es : List Diagnostic} (first : codes.Passes ds)
    (later : codes.Passes es) : codes.Passes (ds ++ es) := by
  intro d member
  exact (List.mem_append.mp member).elim (first d) (later d)

theorem Passes.of_mem {codes : StageCodes} {ds : List Diagnostic} (passes : codes.Passes ds)
    {d : Diagnostic} (member : d ∈ ds) :
    d.code ∈ codes.passing ∧ d.code ∉ codes.closing ∧ d.severity = d.code.severity := by
  obtain ⟨f, passing, rfl⟩ := passes d member
  exact ⟨passing, codes.apart _ passing, rfl⟩

end StageCodes

namespace Outcome
variable {α : Type} {codes : StageCodes}

/-- The outcome of a stage of these codes. One that is rejected is so for its last
    diagnostic alone, which is about the stage as a whole. -/
structure Disciplined (o : Outcome α) (codes : StageCodes) : Prop where
  complete : (∃ v, o = .complete v) ↔ (∃ v, o.value? = some v) ∧ o.diagnostics = []
  own : ∀ d ∈ o.diagnostics, d.code ∈ codes.all
  severities : ∀ d ∈ o.diagnostics, d.severity = d.code.severity
  rejected : o.isRejected = true ↔ ∃ d ∈ o.diagnostics, d.code ∈ codes.closing
  closed : o.isRejected = true → ∃ opening last, o.diagnostics = opening ++ [last] ∧
    (∀ d ∈ opening, d.code ∉ codes.closing) ∧ last.code ∈ codes.closing ∧ last.place = none

theorem Disciplined.usable (value : α) {ds : List Diagnostic} (passes : codes.Passes ds) :
    (usable value ds).Disciplined codes where
  complete := by
    simp only [complete_iff (usable_settled value ds), exists_and_right]
  own := by
    rw [usable_diagnostics]
    intro d member
    exact List.mem_append_left _ (passes.of_mem member).1
  severities := by
    rw [usable_diagnostics]
    intro d member
    exact (passes.of_mem member).2.2
  rejected := by
    rw [isRejected_iff, usable_value?, usable_diagnostics]
    constructor
    · intro none
      contradiction
    · rintro ⟨d, member, closing⟩
      exact False.elim ((passes.of_mem member).2.1 closing)
  closed := by
    rw [isRejected_iff, usable_value?]
    intro none
    contradiction

theorem Disciplined.rejected_by {opening : List Diagnostic} (passes : codes.Passes opening)
    {f : Finding} (closing : f.code ∈ codes.closing) (whole : f.place = none) :
    (Outcome.rejected (opening ++ [f.diagnostic]) : Outcome α).Disciplined codes where
  complete := by simp [value?]
  own := by
    intro d member
    rcases List.mem_append.mp member with earlier | last
    · exact List.mem_append_left _ (passes.of_mem earlier).1
    · rw [List.mem_singleton.mp last]
      exact List.mem_append_right _ closing
  severities := by
    intro d member
    rcases List.mem_append.mp member with earlier | last
    · exact (passes.of_mem earlier).2.2
    · rw [List.mem_singleton.mp last]
      rfl
  rejected :=
    ⟨fun _ => ⟨_, List.mem_append_right _ (List.mem_singleton_self _), closing⟩, fun _ => rfl⟩
  closed _ :=
    ⟨opening, f.diagnostic, rfl, fun _ earlier => (passes.of_mem earlier).2.1, closing, whole⟩

end Outcome

theorem screen_passes (limits : Limits) (declarations : List TypeDecl) (kind : Kind) :
    registryCodes.Passes (screen limits kind declarations).diagnostics := by
  intro d member
  rcases screen_reports member with ⟨x, _, cause, _, rfl⟩ | ⟨name, _, rfl⟩
  · exact ⟨_, by cases cause <;> simp [Finding.code, Defect.code, registryCodes], rfl⟩
  · exact ⟨_, by simp [Finding.code, registryCodes], rfl⟩

theorem contests_pass (kind : Kind) (candidates : List TypeDecl) :
    registryCodes.Passes (contests kind candidates) := by
  intro d member
  obtain ⟨id, names, place, rfl⟩ := contests_report member
  exact ⟨_, by simp [Finding.code, registryCodes], rfl⟩

theorem registry_disciplined (limits : Limits) (declarations : List TypeDecl) (kind : Kind) :
    (registry limits declarations kind).Disciplined registryCodes := by
  have passes := StageCodes.passes_append (screen_passes limits declarations kind)
    (contests_pass kind (candidatesOf limits kind declarations))
  by_cases within : WithinLimit kind limits.maxId (candidatesOf limits kind declarations)
  · obtain ⟨value, reports⟩ := registry_within within
    rw [Outcome.eq_usable (registry_settled limits declarations kind) value, reports]
    exact .usable _ passes
  · rw [registry_beyond within, ← List.append_assoc]
    exact .rejected_by passes (by simp [Finding.code, registryCodes]) rfl

theorem queries_pass (tables : NameTables) (queries : List QueryDecl) :
    queryCodes.Passes (queries.flatMap (QueryDecl.reports tables)) := by
  intro d member
  obtain ⟨q, _, reported⟩ := List.mem_flatMap.mp member
  rcases List.mem_append.mp reported with warned | lost
  · split at warned
    · contradiction
    · exact ⟨_, by simp [Finding.code, queryCodes], List.mem_singleton.mp warned⟩
  · split at lost
    · contradiction
    · exact ⟨_, by simp [Finding.code, queryCodes], List.mem_singleton.mp lost⟩

theorem unknownRelations_pass (entries : List Entry) :
    scheduleCodes.Passes (unknownRelations entries) := by
  intro d member
  obtain ⟨name, direction, target, place, rfl⟩ := unknownRelations_report member
  exact ⟨_, by simp [Finding.code, scheduleCodes], rfl⟩

theorem schedule_disciplined (entries : List Entry) :
    (schedule entries).Disciplined scheduleCodes := by
  have passes := unknownRelations_pass entries
  simp only [schedule]
  cases arrange (systemNodes entries) with
  | ordered order => exact .usable _ passes
  | blocked ids => exact .rejected_by passes (by simp [Finding.code, scheduleCodes]) rfl

theorem scheduleSystems_disciplined (systems : Outcome Registry) :
    (scheduleSystems systems).Disciplined scheduleCodes := by
  rw [scheduleSystems]
  cases systems.value? with
  | some r => exact schedule_disciplined r.entries
  | none =>
    have silent : scheduleCodes.Passes [] := by
      intro d member
      contradiction
    exact .rejected_by silent (by decide) rfl

theorem unscheduled_iff (systems : Outcome Registry) :
    (∃ d ∈ (scheduleSystems systems).diagnostics, d.code = .scheduleUnavailable) ↔
      systems.isRejected = true := by
  rw [Outcome.isRejected_iff, scheduleSystems]
  cases systems.value? with
  | none => exact ⟨fun _ => rfl, fun _ => ⟨_, List.mem_singleton_self _, rfl⟩⟩
  | some r =>
    constructor
    · rintro ⟨d, reported, unscheduled⟩
      rcases schedule_reports reported with unknown | cycle
      · rw [unknown] at unscheduled
        contradiction
      · rw [cycle] at unscheduled
        contradiction
    · intro none
      contradiction

def unscheduledReport : Diagnostic where
  code := .scheduleUnavailable
  severity := .error
  message := "system IDs could not be allocated; no schedule is generated"
  place := none

theorem unscheduled_reports {systems : Outcome Registry} (rejected : systems.isRejected = true) :
    (scheduleSystems systems).diagnostics = [unscheduledReport] := by
  rw [scheduleSystems, (Outcome.isRejected_iff systems).mp rejected]
  rfl

/-- Each stage of a pass reports in its own codes, whatever is put in. It is complete
    exactly if it has a value and is silent, and it is rejected exactly if it reports one of
    the codes that close it, once and at the end. Queries are never rejected. The schedule
    has nothing to say but that it lacks the systems exactly if these are rejected. -/
theorem stages_disciplined (limits : Limits) (declarations : List TypeDecl)
    (queries : List QueryDecl) :
    let p := Plan.make limits declarations queries
    (∀ kind, (p.registry kind).Disciplined registryCodes) ∧
      p.queries.Disciplined queryCodes ∧ p.queries.isRejected = false ∧
      p.schedule.Disciplined scheduleCodes ∧
      ((∃ d ∈ p.schedule.diagnostics, d.code = .scheduleUnavailable) ↔
        p.systems.isRejected = true) ∧
      (p.systems.isRejected = true →
        p.schedule.diagnostics = [unscheduledReport]) := by
  intro p
  refine ⟨fun kind => ?_, .usable _ (queries_pass _ _), ?_, scheduleSystems_disciplined _,
    unscheduled_iff _, unscheduled_reports⟩
  · rw [plan_registry]
    exact registry_disciplined limits declarations kind
  · exact (Outcome.not_isRejected_iff _).mpr ⟨_, queries_value rfl⟩

def dawn : TypeDecl := { name := "Dawn", kind := .system }

def dusk : TypeDecl := { name := "Dusk", kind := .system }

theorem crowded_systems_unscheduled :
    let p := Plan.make { maxId := 0 } [dawn, dusk] []
    p.systems.isRejected = true ∧ p.systems.Disciplined registryCodes ∧
      p.schedule.diagnostics = [unscheduledReport] := by
  intro p
  have crowded : Assigns .system (candidatesOf { maxId := 0 } .system [dawn, dusk])
      [⟨dawn, 0, .auto⟩, ⟨dusk, 1, .auto⟩] := by decide
  have rejected : p.systems.isRejected = true :=
    (registry_rejected_iff crowded).mpr (by decide)
  obtain ⟨registries, _, _, _, _, alone⟩ := stages_disciplined { maxId := 0 } [dawn, dusk] []
  exact ⟨rejected, registries .system, alone rejected⟩

/-- Every code belongs to one stage. -/
example : registryCodes.all ++ queryCodes.all ++ scheduleCodes.all = Code.all := rfl

end EcsPlan
