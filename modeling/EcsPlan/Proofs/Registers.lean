import EcsPlan.Plan
import EcsPlan.Proofs.Candidates
import EcsPlan.Proofs.Numbers

namespace EcsPlan

theorem find?_eq_some_iff {table : NameTable} (nodup : (table.map Prod.fst).Nodup)
    {name : String} {id : UInt32} : table.find? name = some id ↔ (name, id) ∈ table := by
  rw [← List.mem_reverse, NameTable.find?, List.lookup_eq_some_iff]
  constructor
  · intro found
    obtain ⟨before, later, split, _⟩ := found
    simp [split]
  · intro member
    obtain ⟨before, later, split⟩ := List.append_of_mem member
    refine ⟨before, later, split, fun p earlier => ?_⟩
    have distinct : (table.reverse.map Prod.fst).Nodup := by
      rw [List.map_reverse]
      exact List.nodup_reverse.mpr nodup
    rw [split, List.map_append] at distinct
    have apart := (List.nodup_append.mp distinct).2.2 p.1 (List.mem_map_of_mem earlier) name
      (by simp)
    exact bne_iff_ne.mpr apart.symm

theorem nameTable_find?_iff {entries : List Entry} (names : (entries.map Entry.name).Nodup)
    {name : String} {id : UInt32} :
    (nameTable entries).find? name = some id ↔ ∃ e ∈ entries, e.name = name ∧ e.id = id := by
  have keys : ((nameTable entries).map Prod.fst).Nodup := by
    simpa [nameTable, Function.comp_def] using names
  rw [find?_eq_some_iff keys]
  simp [nameTable]

/-- Entries in ascending order of their IDs, each with a name of its own. -/
structure WellNumbered (entries : List Entry) : Prop where
  ascending : entries.Pairwise (·.id < ·.id)
  names : (entries.map Entry.name).Nodup

namespace WellNumbered
variable {entries : List Entry}

theorem of_owners {candidates : List TypeDecl} {kept : TypeDecl → Bool}
    (ascending : entries.Pairwise (·.id < ·.id))
    (owners : (entries.map (·.owner)).Perm (candidates.filter kept))
    (names : (candidates.map (·.name)).Nodup) : WellNumbered entries where
  ascending := ascending
  names := by
    have distinct := (owners.map TypeDecl.name).nodup_iff.mpr
      ((List.filter_sublist.map _).nodup names)
    rwa [List.map_map] at distinct

theorem ids_nodup (w : WellNumbered entries) : (entries.map (·.id)).Nodup := by
  refine List.pairwise_map.mpr (w.ascending.imp fun {a b} lt same => ?_)
  rw [same] at lt
  exact UInt32.lt_irrefl _ lt

theorem eq_of_id (w : WellNumbered entries) {e f : Entry} (he : e ∈ entries) (hf : f ∈ entries)
    (same : e.id = f.id) : e = f :=
  List.inj_on_of_nodup_map w.ids_nodup he hf same

theorem find?_iff (w : WellNumbered entries) {name : String} {id : UInt32} :
    (nameTable entries).find? name = some id ↔ ∃ e ∈ entries, e.name = name ∧ e.id = id :=
  nameTable_find?_iff w.names

end WellNumbered

section Register
variable {limits : Limits} {declarations : List TypeDecl} {kind : Kind}

theorem plan_registry (limits : Limits) (declarations : List TypeDecl)
    (queries : List QueryDecl) (kind : Kind) :
    (Plan.make limits declarations queries).registry kind =
      registry limits declarations kind := by
  cases kind <;> rfl

theorem mem_diagnostics {p : Plan} {d : Diagnostic} : d ∈ p.diagnostics ↔
    (∃ kind, d ∈ (p.registry kind).diagnostics) ∨ d ∈ p.queries.diagnostics ∨
      d ∈ p.schedule.diagnostics := by
  have kinds : (∃ kind, d ∈ (p.registry kind).diagnostics) ↔
      ((d ∈ p.components.diagnostics ∨ d ∈ p.tags.diagnostics) ∨ d ∈ p.queryables.diagnostics) ∨
        d ∈ p.systems.diagnostics := by
    constructor
    · rintro ⟨kind, member⟩
      cases kind with
      | component => exact .inl (.inl (.inl member))
      | tag => exact .inl (.inl (.inr member))
      | queryable => exact .inl (.inr member)
      | system => exact .inr member
    · rintro (((component | tag) | queryable) | system)
      · exact ⟨.component, component⟩
      · exact ⟨.tag, tag⟩
      · exact ⟨.queryable, queryable⟩
      · exact ⟨.system, system⟩
  rw [kinds, ← or_assoc]
  simp only [Plan.diagnostics, List.mem_append]

theorem registry_congr {others : List TypeDecl}
    (own : ofKind kind others = ofKind kind declarations) :
    registry limits others kind = registry limits declarations kind := by
  simp only [registry, screen, own]

theorem registry_value? : (registry limits declarations kind).value? =
    (numbering kind limits.maxId (candidatesOf limits kind declarations)).value?.map
      (.ofEntries limits kind) := by
  rw [registry, Outcome.precededBy_value?, Outcome.map_value?]
  rfl

theorem registry_diagnostics : (registry limits declarations kind).diagnostics =
    (screen limits kind declarations).diagnostics ++
      (numbering kind limits.maxId (candidatesOf limits kind declarations)).diagnostics := by
  rw [registry, Outcome.precededBy_diagnostics, Outcome.map_diagnostics]
  rfl

theorem registry_within
    (within : WithinLimit kind limits.maxId (candidatesOf limits kind declarations)) :
    (registry limits declarations kind).value? = some (.ofEntries limits kind
        (assigned kind (candidatesOf limits kind declarations))) ∧
      (registry limits declarations kind).diagnostics =
        (screen limits kind declarations).diagnostics ++
          contests kind (candidatesOf limits kind declarations) := by
  rw [registry_value?, registry_diagnostics, numbering_within within]
  simp

theorem registry_beyond
    (beyond : ¬ WithinLimit kind limits.maxId (candidatesOf limits kind declarations)) :
    registry limits declarations kind = .rejected
      ((screen limits kind declarations).diagnostics ++
        (contests kind (candidatesOf limits kind declarations) ++
          [(Finding.capacity kind (shownHighest kind (candidatesOf limits kind declarations))
            limits.maxId).diagnostic])) := by
  have run := numbering_beyond beyond
  rw [candidatesOf] at run
  simp only [registry, run]
  rfl

theorem registry_value {r : Registry}
    (accepted : (registry limits declarations kind).value? = some r) :
    WithinLimit kind limits.maxId (candidatesOf limits kind declarations) ∧
      r = .ofEntries limits kind (assigned kind (candidatesOf limits kind declarations)) := by
  by_cases within : WithinLimit kind limits.maxId (candidatesOf limits kind declarations)
  · rw [(registry_within within).1] at accepted
    exact ⟨within, (Option.some.inj accepted).symm⟩
  · rw [registry_beyond within] at accepted
    contradiction

theorem numbering_settled (kind : Kind) (maxId : UInt32) (candidates : List TypeDecl) :
    (numbering kind maxId candidates).Settled := by
  by_cases within : WithinLimit kind maxId candidates
  · rw [numbering_within within]
    exact Outcome.usable_settled _ _
  · rw [numbering_beyond within]
    simp [Outcome.Settled]

theorem registry_settled (limits : Limits) (declarations : List TypeDecl) (kind : Kind) :
    (registry limits declarations kind).Settled :=
  Outcome.precededBy_settled _ (Outcome.map_settled _ (numbering_settled _ _ _))

theorem entry_owner {e : Entry}
    (member : e ∈ assigned kind (candidatesOf limits kind declarations)) :
    e.owner ∈ candidatesOf limits kind declarations := by
  have owners := assigned_owners_perm kind (candidatesOf limits kind declarations)
  exact List.mem_of_mem_filter (owners.mem_iff.mp (List.mem_map_of_mem member))

theorem registry_wellNumbered {r : Registry}
    (accepted : (registry limits declarations kind).value? = some r) :
    WellNumbered r.entries := by
  obtain ⟨within, rfl⟩ := registry_value accepted
  exact .of_owners (assigned_ascending within) (assigned_owners_perm ..)
    (candidate_names_nodup limits kind declarations)

end Register
end EcsPlan
