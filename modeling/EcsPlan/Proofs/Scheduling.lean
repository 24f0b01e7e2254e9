import EcsPlan.Proofs.Assignments
import EcsPlan.Proofs.RunOrder

namespace EcsPlan

/-- The schedule holds the entries as its nodes, joined exactly by the declared
    relation, and runs each of them once and behind all that have to run before. -/
structure Realizes (entries : List Entry) (s : Schedule) : Prop where
  ascending : (s.nodes.toList.map (·.id)).Pairwise (· < ·)
  nodes : s.nodes.toList.map (fun n => (n.id, n.name)) = entries.map fun e => (e.id, e.name)
  edges : ∀ n ∈ s.nodes.toList, ∀ a ∈ entries, n.id = a.id →
    ∀ p, p ∈ n.predecessors ↔ ∃ b, RunsBefore entries b a ∧ b.id = p
  order : s.order.Perm (entries.map (·.id))
  before : ∀ b a, RunsBefore entries b a → s.order.idxOf b.id < s.order.idxOf a.id

theorem realizes_acyclic {entries : List Entry} (w : WellNumbered entries)
    (acyclic : Acyclic entries) :
    Realizes entries ⟨(systemNodes entries).toArray, runOrder entries⟩ where
  ascending := by
    rw [systemNodes_eq w, List.map_map]
    exact List.pairwise_map.mpr w.ascending
  nodes := by
    rw [systemNodes_eq w, List.map_map]
    rfl
  edges := by
    rw [systemNodes_eq w]
    intro n listed a member same p
    obtain ⟨e, inside, rfl⟩ := List.mem_map.mp listed
    have one : e = a := w.eq_of_id inside member same
    subst one
    exact predecessors_iff w inside
  order := runOrder_perm w acyclic
  before _ _ := runOrder_before w acyclic

theorem cycle_reports (entries : List Entry) (names : List String) :
    (unknownRelations entries ++ [(Finding.cycle names).diagnostic]).filter
      (·.code = .dependencyCycle) = [(Finding.cycle names).diagnostic] := by
  have others : (unknownRelations entries).filter (·.code = .dependencyCycle) = [] := by
    apply List.filter_eq_nil_iff.mpr
    intro d member
    obtain ⟨_, _, _, _, rfl⟩ := unknownRelations_report member
    simp [Finding.diagnostic, Finding.code]
  simp [others, Finding.diagnostic, Finding.code]

theorem system_entries {limits : Limits} {declarations : List TypeDecl} {r : Registry}
    (accepted : (registry limits declarations .system).value? = some r) :
    ∀ e ∈ r.entries, e.owner ∈ declarations ∧ e.owner.kind = .system := by
  obtain ⟨_, rfl⟩ := registry_value accepted
  intro e member
  exact mem_ofKind.mp (candidate_of_kind (entry_owner member))

theorem schedule_of_registry (limits : Limits) (declarations : List TypeDecl)
    (queries : List QueryDecl) {r : Registry}
    (accepted : (registry limits declarations .system).value? = some r) :
    (Plan.make limits declarations queries).schedule = schedule r.entries := by
  simp [Plan.make, scheduleSystems, accepted]

/-- The schedule of a pass whose systems are accepted. It is rejected exactly if the
    declared relation has a cycle, and then names the systems on or behind one. -/
theorem schedule_follows_relations {limits : Limits} {declarations : List TypeDecl}
    {queries : List QueryDecl} {r : Registry}
    (accepted : (Plan.make limits declarations queries).systems.value? = some r) :
    let plan := Plan.make limits declarations queries
    (∀ e ∈ r.entries, e.owner ∈ declarations ∧ e.owner.kind = .system) ∧
      r.entries.Pairwise (·.id < ·.id) ∧
      (plan.schedule.isRejected = true ↔
        ∃ e, Relation.TransGen (RunsBefore r.entries) e e) ∧
      (plan.schedule.isRejected = true → ∃ blocked : List Entry,
        blocked.Sublist r.entries ∧
        (∀ e, e ∈ blocked ↔ e ∈ r.entries ∧ Blocked (RunsBefore r.entries) e) ∧
        plan.schedule.diagnostics.filter (·.code = .dependencyCycle) =
          [⟨.dependencyCycle, .error, "system ordering contains a cycle involving " ++
            ", ".intercalate (blocked.map Entry.name) ++ "; no schedule is generated", none⟩]) ∧
      (plan.schedule.isRejected = false →
        ∃ s, plan.schedule.value? = some s ∧ Realizes r.entries s) := by
  intro plan
  have w := registry_wellNumbered accepted
  have same : plan.schedule = schedule r.entries :=
    schedule_of_registry limits declarations queries accepted
  rw [same]
  refine ⟨system_entries accepted, w.ascending, ?_⟩
  by_cases acyclic : Acyclic r.entries
  · have run := schedule_acyclic w acyclic
    have usable : (schedule r.entries).isRejected = false := by
      rw [run, Outcome.not_isRejected_iff, Outcome.usable_value?]
      exact ⟨_, rfl⟩
    refine ⟨?_, ?_, fun _ => ⟨_, by rw [run, Outcome.usable_value?], realizes_acyclic w acyclic⟩⟩
    · rw [usable]
      exact ⟨fun rejected => by contradiction, fun ⟨e, cycle⟩ => False.elim (acyclic e cycle)⟩
    · rw [usable]
      intro rejected
      contradiction
  · have run := schedule_cyclic w acyclic
    have cyclic : ∃ e, Relation.TransGen (RunsBefore r.entries) e e := by
      simpa [Acyclic] using acyclic
    rw [run]
    refine ⟨⟨fun _ => cyclic, fun _ => rfl⟩, fun _ => ?_, fun usable => by contradiction⟩
    exact ⟨blockedEntries r.entries, blockedEntries_sublist w, fun e => mem_blockedEntries w,
      cycle_reports _ _⟩

def inputSystem : TypeDecl := { name := "Input", kind := .system, before := ["Move"] }

def moveSystem : TypeDecl := { name := "Move", kind := .system, after := ["Input", "Gone"] }

def movingSystems : Registry :=
  ⟨.system, [⟨inputSystem, 0, .auto⟩, ⟨moveSystem, 1, .auto⟩], .least, false⟩

theorem moving_systems_accepted :
    (registry {} [inputSystem, moveSystem] .system).value? = some movingSystems :=
  registry_iff_assigns.mpr ⟨by decide, by decide⟩

def chaseSystem : TypeDecl := { name := "Chase", kind := .system, before := ["Flee"] }

def fleeSystem : TypeDecl := { name := "Flee", kind := .system, before := ["Chase"] }

def hideSystem : TypeDecl := { name := "Hide", kind := .system, after := ["Flee"] }

def restSystem : TypeDecl := { name := "Rest", kind := .system, before := ["Hide"] }

def chasingEntries : List Entry :=
  [⟨chaseSystem, 0, .auto⟩, ⟨fleeSystem, 1, .auto⟩, ⟨hideSystem, 2, .auto⟩]

def chasingSystems : Registry :=
  .ofEntries {} .system (chasingEntries ++ [⟨restSystem, 3, .auto⟩])

theorem chasing_systems_accepted :
    (registry {} [hideSystem, restSystem, fleeSystem, chaseSystem] .system).value? =
      some chasingSystems :=
  registry_iff_assigns.mpr ⟨by decide, by decide⟩

theorem chasing_systems_cycle : Relation.TransGen (RunsBefore chasingSystems.entries)
    ⟨chaseSystem, 0, .auto⟩ ⟨chaseSystem, 0, .auto⟩ := by
  have flees : RunsBefore chasingSystems.entries ⟨chaseSystem, 0, .auto⟩ ⟨fleeSystem, 1, .auto⟩ :=
    ⟨by decide, by decide, by decide⟩
  have chases : RunsBefore chasingSystems.entries ⟨fleeSystem, 1, .auto⟩ ⟨chaseSystem, 0, .auto⟩ :=
    ⟨by decide, by decide, by decide⟩
  exact .tail (.single flees) chases

theorem chasing_systems_blocked (e : Entry) :
    e ∈ chasingSystems.entries ∧ Blocked (RunsBefore chasingSystems.entries) e ↔
      e ∈ chasingEntries := by
  constructor
  · rintro ⟨member, blocked⟩
    rcases List.mem_append.mp member with chasing | rest
    · exact chasing
    · obtain ⟨b, listed, _, said⟩ := blocked.edge
      rw [List.mem_singleton.mp rest] at said
      have unsaid : ∀ b ∈ chasingSystems.entries,
        ¬ (b.name ∈ restSystem.after ∨ restSystem.name ∈ b.owner.before) := by decide
      exact False.elim (unsaid b listed said)
  · intro chasing
    have cycle := blocked_of_cycle chasing_systems_cycle
    have flee : Blocked (RunsBefore chasingSystems.entries) ⟨fleeSystem, 1, .auto⟩ :=
      blocked_next cycle ⟨by decide, by decide, by decide⟩
    refine ⟨List.mem_append_left _ chasing, ?_⟩
    simp only [chasingEntries, List.mem_cons, List.not_mem_nil, or_false] at chasing
    rcases chasing with rfl | rfl | rfl
    · exact cycle
    · exact flee
    · exact blocked_next flee ⟨by decide, by decide, by decide⟩

/-- The moving systems have a schedule. The chasing ones have none, and the one that is not held
    up is not named. -/
theorem moving_systems_follow_relations :
    let moving := Plan.make {} [inputSystem, moveSystem] []
    let chasing := Plan.make {} [hideSystem, restSystem, fleeSystem, chaseSystem] []
    (moving.systems.value? = some movingSystems ∧
      (moving.schedule.isRejected = true ↔
        ∃ e, Relation.TransGen (RunsBefore movingSystems.entries) e e) ∧
      (moving.schedule.isRejected = false →
        ∃ s, moving.schedule.value? = some s ∧ Realizes movingSystems.entries s)) ∧
    chasing.systems.value? = some chasingSystems ∧ chasing.schedule.isRejected = true ∧
      chasing.schedule.diagnostics.filter (·.code = .dependencyCycle) =
        [⟨.dependencyCycle, .error, "system ordering contains a cycle involving " ++
          "Chase, Flee, Hide; no schedule is generated", none⟩] := by
  intro moving chasing
  have accepted : moving.systems.value? = some movingSystems := moving_systems_accepted
  obtain ⟨_, _, cycles, _, usable⟩ := schedule_follows_relations accepted
  have chased : chasing.systems.value? = some chasingSystems := chasing_systems_accepted
  obtain ⟨_, ascending, cyclic, reported, _⟩ := schedule_follows_relations chased
  have rejected := cyclic.mpr ⟨_, chasing_systems_cycle⟩
  obtain ⟨blocked, sub, exact, report⟩ := reported rejected
  have names : blocked = chasingEntries :=
    eq_of_ascending (ascending.sublist sub) (by decide) fun e =>
      (exact e).trans (chasing_systems_blocked e)
  rw [names] at report
  exact ⟨⟨accepted, cycles, usable⟩, chased, rejected, report⟩

end EcsPlan
