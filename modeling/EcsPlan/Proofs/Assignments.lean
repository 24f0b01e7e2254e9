import EcsPlan.Proofs.Registers
import Mathlib.Data.List.Sort

/-!
Numberings by what they promise instead of by how they are found. The promise leaves
no choice: entries that keep it are the ones that the candidates are given. Whoever
wants to know what another pass hands out has only to guess its entries.
-/
namespace EcsPlan

def Entry.asked (e : Entry) : Option UInt32 :=
  match e.source with
  | .manual => some e.id
  | .auto => none

def ofSource (source : IdSource) (entries : List Entry) : List Entry :=
  entries.filter (·.source = source)

/-- The uncontested candidates own an entry each. Who asks for an ID has it; the others
    follow the order of their kind and leave no ID out. -/
structure Assigns (kind : Kind) (candidates : List TypeDecl) (entries : List Entry) : Prop where
  ascending : entries.Pairwise (·.id < ·.id)
  owners : (entries.map (·.owner)).Perm (candidates.filter (uncontested candidates))
  asked : ∀ e ∈ entries, e.owner.manualId = e.asked
  ordered : (ofSource .auto entries).Pairwise fun e f => (kind.order e.owner f.owner).isLE
  dense : ∀ e ∈ ofSource .auto entries, ∀ slot < e.id.toNat, slot ∈ entries.map (·.id.toNat)

instance (kind : Kind) (candidates : List TypeDecl) (entries : List Entry) :
    Decidable (Assigns kind candidates entries) :=
  decidable_of_iff (entries.Pairwise (·.id < ·.id) ∧
      (entries.map (·.owner)).Perm (candidates.filter (uncontested candidates)) ∧
      (∀ e ∈ entries, e.owner.manualId = e.asked) ∧
      ((ofSource .auto entries).Pairwise fun e f => (kind.order e.owner f.owner).isLE) ∧
      ∀ e ∈ ofSource .auto entries, ∀ slot < e.id.toNat, slot ∈ entries.map (·.id.toNat))
    ⟨fun ⟨a, b, c, d, e⟩ => ⟨a, b, c, d, e⟩, fun ⟨a, b, c, d, e⟩ => ⟨a, b, c, d, e⟩⟩

theorem asked_eq_some {e : Entry} {id : UInt32} :
    e.asked = some id ↔ e.source = .manual ∧ e.id = id := by
  cases source : e.source <;> simp [Entry.asked, source]

theorem mem_ofSource {source : IdSource} {entries : List Entry} {e : Entry} :
    e ∈ ofSource source entries ↔ e ∈ entries ∧ e.source = source := by
  simp [ofSource]

theorem ofSource_perm (entries : List Entry) :
    (ofSource .manual entries ++ ofSource .auto entries).Perm entries := by
  have other : ofSource .auto entries = entries.filter fun e => !decide (e.source = .manual) := by
    apply List.filter_congr
    intro e _
    cases e.source <;> simp
  rw [other]
  exact List.filter_append_perm _ _

theorem eq_of_ascending {left right : List Entry} (ascending : left.Pairwise (·.id < ·.id))
    (others : right.Pairwise (·.id < ·.id)) (same : ∀ e, e ∈ left ↔ e ∈ right) :
    left = right := by
  have strict : Std.Irrefl fun e f : Entry => e.id < f.id := ⟨fun e => UInt32.lt_irrefl e.id⟩
  have antisymm : Std.Antisymm fun e f : Entry => e.id < f.id :=
    ⟨fun _ _ lt gt => False.elim (UInt32.lt_asymm lt gt)⟩
  exact ascending.eq_of_mem_iff others same

theorem ofSource_ascending {entries : List Entry} (source : IdSource)
    (ascending : entries.Pairwise (·.id < ·.id)) :
    (ofSource source entries).Pairwise (·.id < ·.id) :=
  ascending.filter _

section Kept
variable {kind : Kind} {maxId : UInt32} {candidates : List TypeDecl}

theorem mem_automaticEntries {filled : List (TypeDecl × Nat)} {e : Entry} :
    e ∈ automaticEntries filled ↔ ∃ p ∈ filled, e = ⟨p.1, .ofNat p.2, .auto⟩ := by
  simp only [automaticEntries, List.mem_map, eq_comm]

theorem mem_assigned {e : Entry} : e ∈ assigned kind candidates ↔
    e ∈ grantedEntries candidates ∨ e ∈ automaticEntries (filledSlots kind candidates) := by
  rw [(assigned_perm kind candidates).mem_iff, List.mem_append]

theorem automatic_source {filled : List (TypeDecl × Nat)} {e : Entry}
    (member : e ∈ automaticEntries filled) : e.source = .auto := by
  obtain ⟨p, _, rfl⟩ := mem_automaticEntries.mp member
  rfl

theorem assigned_automatic (within : WithinLimit kind maxId candidates) :
    ofSource .auto (assigned kind candidates) =
      automaticEntries (filledSlots kind candidates) := by
  apply eq_of_ascending (ofSource_ascending .auto (assigned_ascending within))
    (automatic_ascending within)
  intro e
  rw [mem_ofSource, mem_assigned]
  constructor
  · rintro ⟨granted | automatic, auto⟩
    · have manual := (mem_grantedEntries.mp granted).1
      rw [manual] at auto
      contradiction
    · exact automatic
  · intro automatic
    exact ⟨.inr automatic, automatic_source automatic⟩

theorem assigned_assigns (within : WithinLimit kind maxId candidates) :
    Assigns kind candidates (assigned kind candidates) where
  ascending := assigned_ascending within
  owners := assigned_owners_perm kind candidates
  asked e member := by
    rcases mem_assigned.mp member with granted | automatic
    · rw [(granted_owner granted).2, Entry.asked, (mem_grantedEntries.mp granted).1]
    · have owner := List.mem_map_of_mem (f := (·.owner)) automatic
      rw [automatic_owners, unpinned, List.mem_mergeSort, List.mem_filter] at owner
      rw [Entry.asked, automatic_source automatic]
      exact Option.isNone_iff_eq_none.mp owner.2
  ordered := by
    have sorted := mergeSort_ascending kind.order (candidates.filter (·.manualId.isNone))
    change (unpinned kind candidates).Pairwise _ at sorted
    rw [← automatic_owners, List.pairwise_map] at sorted
    rwa [assigned_automatic within]
  dense e auto slot below := by
    rw [assigned_automatic within] at auto
    have fills := fillSlots_fills (granted_reserved candidates) (unpinned kind candidates)
    have slots := ((assigned_perm kind candidates).map (·.id.toNat)).mem_iff (a := slot)
    rw [slots, entry_slots within, takenSlots, List.mem_append]
    refine fills.dense e.id.toNat ?_ slot below
    change e.id.toNat ∈ (filledSlots kind candidates).map (·.2)
    rw [← automatic_slots within]
    exact List.mem_map_of_mem auto

end Kept

namespace Assigns
variable {kind : Kind} {maxId : UInt32} {candidates : List TypeDecl} {entries : List Entry}

theorem mem_owners (a : Assigns kind candidates entries) {d : TypeDecl} :
    (∃ e ∈ entries, e.owner = d) ↔ d ∈ candidates ∧ uncontested candidates d = true := by
  rw [← List.mem_map, a.owners.mem_iff, List.mem_filter]

theorem granted_eq (a : Assigns kind candidates entries) :
    grantedEntries candidates = ofSource .manual entries := by
  apply eq_of_ascending (granted_ascending candidates) (ofSource_ascending .manual a.ascending)
  intro e
  rw [mem_grantedEntries, mem_ofSource]
  constructor
  · rintro ⟨manual, sole⟩
    have asks := mem_requesters.mp (by rw [sole]; simp : e.owner ∈ requesters candidates e.id)
    have free : uncontested candidates e.owner = true := by
      apply uncontested_iff.mpr
      intro id same
      rw [← Option.some.inj (asks.2.symm.trans same), sole]
    obtain ⟨f, member, same⟩ := a.mem_owners.mpr ⟨asks.1, free⟩
    have asked := a.asked f member
    rw [same, asks.2] at asked
    cases source : f.source with
    | manual =>
      have id : e.id = f.id := by simpa [Entry.asked, source] using asked
      have one : f = e := by
        cases e; cases f
        simp_all
      exact ⟨one ▸ member, manual⟩
    | auto => simp [Entry.asked, source] at asked
  · rintro ⟨member, manual⟩
    have asked := a.asked e member
    rw [Entry.asked, manual] at asked
    exact ⟨manual, uncontested_iff.mp (a.mem_owners.mp ⟨e, member, rfl⟩).2 e.id asked⟩

theorem auto_owner (a : Assigns kind candidates entries) {d : TypeDecl} :
    d ∈ (ofSource .auto entries).map (·.owner) ↔ d ∈ candidates ∧ d.manualId = none := by
  simp only [List.mem_map, mem_ofSource]
  constructor
  · rintro ⟨e, ⟨member, auto⟩, rfl⟩
    have asked := a.asked e member
    rw [Entry.asked, auto] at asked
    exact ⟨(a.mem_owners.mp ⟨e, member, rfl⟩).1, asked⟩
  · rintro ⟨candidate, asksNone⟩
    have free : uncontested candidates d = true := by simp [uncontested, asksNone]
    obtain ⟨e, member, rfl⟩ := a.mem_owners.mpr ⟨candidate, free⟩
    have asked := a.asked e member
    cases source : e.source with
    | manual => simp [Entry.asked, source, asksNone] at asked
    | auto => exact ⟨e, ⟨member, source⟩, rfl⟩

section Names
variable (a : Assigns kind candidates entries) (names : (candidates.map (·.name)).Nodup)
include a names

theorem wellNumbered : WellNumbered entries := .of_owners a.ascending a.owners names

theorem owners_nodup : (entries.map (·.owner)).Nodup :=
  a.owners.nodup_iff.mpr (names.of_map.filter _)

theorem eq_of_owner {e f : Entry} (left : e ∈ entries) (right : f ∈ entries)
    (same : e.owner = f.owner) : e = f :=
  List.inj_on_of_nodup_map (a.owners_nodup names) left right same

theorem unpinned_eq :
    unpinned kind candidates = (ofSource .auto entries).map (·.owner) := by
  have sub : ((ofSource .auto entries).map (·.owner)).Nodup :=
    (List.filter_sublist.map _).nodup (a.owners_nodup names)
  have perm : (unpinned kind candidates).Perm ((ofSource .auto entries).map (·.owner)) := by
    refine (List.mergeSort_perm _ _).trans ?_
    refine (List.perm_ext_iff_of_nodup (names.of_map.filter _) sub).mpr fun d => ?_
    rw [a.auto_owner, List.mem_filter, Option.isNone_iff_eq_none]
  refine perm.eq_of_pairwise ?_ (mergeSort_ascending kind.order _)
    (List.pairwise_map.mpr a.ordered)
  intro d f left right before after
  have inside := (a.auto_owner.mp right).1
  have candidate := (a.auto_owner.mp (perm.mem_iff.mp left)).1
  exact List.inj_on_of_nodup_map names candidate inside
    (order_eq_names (Std.OrientedCmp.isLE_antisymm before after))

theorem fills :
    Fills ((ofSource .manual entries).map (·.id.toNat))
      ((ofSource .auto entries).map (·.id.toNat)) where
  ascending := List.pairwise_map.mpr
    ((ofSource_ascending .auto a.ascending).imp UInt32.lt_iff_toNat_lt.mp)
  free slot auto manual := by
    obtain ⟨e, left, rfl⟩ := List.mem_map.mp auto
    obtain ⟨f, right, same⟩ := List.mem_map.mp manual
    obtain ⟨inE, sourceE⟩ := mem_ofSource.mp left
    obtain ⟨inF, sourceF⟩ := mem_ofSource.mp right
    have one : f = e := (a.wellNumbered names).eq_of_id inF inE (UInt32.toNat_inj.mp same)
    rw [one, sourceE] at sourceF
    contradiction
  dense slot auto k below := by
    obtain ⟨e, member, rfl⟩ := List.mem_map.mp auto
    have held := a.dense e member k below
    rw [← ((ofSource_perm entries).map _).mem_iff, List.map_append, List.mem_append] at held
    exact held

theorem filled_eq :
    filledSlots kind candidates = (ofSource .auto entries).map fun e => (e.owner, e.id.toNat) := by
  have valid := granted_reserved candidates
  rw [a.granted_eq] at valid
  rw [filledSlots, a.granted_eq, a.unpinned_eq names,
    fillSlots_eq_zip valid (a.fills names) (by simp), List.zip_map']

theorem automatic_eq :
    automaticEntries (filledSlots kind candidates) = ofSource .auto entries := by
  rw [a.filled_eq names, automaticEntries, List.map_map, List.map_congr_left (g := id),
    List.map_id]
  intro e auto
  have source := (mem_ofSource.mp auto).2
  cases e
  simp_all

theorem takenSlots_perm : (takenSlots kind candidates).Perm (entries.map (·.id.toNat)) := by
  have filled : (filledSlots kind candidates).map (·.2) =
      (ofSource .auto entries).map (·.id.toNat) := by
    rw [a.filled_eq names, List.map_map]
    rfl
  rw [takenSlots, filled, a.granted_eq, ← List.map_append]
  exact (ofSource_perm entries).map _

/-- Entries that keep the promise, and the limit, are those that the candidates are given. -/
theorem determines (below : ∀ e ∈ entries, e.id ≤ maxId) :
    WithinLimit kind maxId candidates ∧ assigned kind candidates = entries := by
  have within : WithinLimit kind maxId candidates := by
    intro slot taken
    obtain ⟨e, member, rfl⟩ := List.mem_map.mp ((a.takenSlots_perm names).mem_iff.mp taken)
    exact UInt32.le_iff_toNat_le.mp (below e member)
  refine ⟨within, eq_of_ascending (assigned_ascending within) a.ascending fun e => ?_⟩
  rw [mem_assigned, a.granted_eq, a.automatic_eq names, ← List.mem_append,
    (ofSource_perm entries).mem_iff]

end Names
end Assigns

section Registers
variable {limits : Limits} {declarations : List TypeDecl} {kind : Kind} {entries : List Entry}

/-- A kind is accepted with exactly the entries that keep the promise and the limit. -/
theorem registry_iff_assigns :
    (registry limits declarations kind).value? = some (.ofEntries limits kind entries) ↔
      Assigns kind (candidatesOf limits kind declarations) entries ∧
        ∀ e ∈ entries, e.id ≤ limits.maxId := by
  constructor
  · intro accepted
    obtain ⟨within, same⟩ := registry_value accepted
    have numbered : entries = assigned kind (candidatesOf limits kind declarations) :=
      congrArg Registry.entries same
    subst numbered
    exact ⟨assigned_assigns within, fun e member => assigned_le within member⟩
  · rintro ⟨a, below⟩
    have names := candidate_names_nodup limits kind declarations
    obtain ⟨within, numbered⟩ := a.determines names below
    rw [(registry_within within).1, numbered]

theorem registry_assigns {r : Registry}
    (accepted : (registry limits declarations kind).value? = some r) :
    r = .ofEntries limits kind r.entries ∧
      Assigns kind (candidatesOf limits kind declarations) r.entries ∧
        ∀ e ∈ r.entries, e.id ≤ limits.maxId := by
  have form : r = .ofEntries limits kind r.entries := by
    obtain ⟨_, rfl⟩ := registry_value accepted
    rfl
  rw [form] at accepted
  exact ⟨form, registry_iff_assigns.mp accepted⟩

theorem registry_rejected_iff
    (a : Assigns kind (candidatesOf limits kind declarations) entries) :
    (registry limits declarations kind).isRejected = true ↔
      ∃ e ∈ entries, limits.maxId < e.id := by
  rw [Outcome.isRejected_iff]
  constructor
  · intro rejected
    by_contra below
    have within : ∀ e ∈ entries, e.id ≤ limits.maxId := fun e member =>
      UInt32.not_lt.mp fun above => below ⟨e, member, above⟩
    rw [registry_iff_assigns.mpr ⟨a, within⟩] at rejected
    contradiction
  · rintro ⟨e, member, above⟩
    cases accepted : (registry limits declarations kind).value? with
    | none => rfl
    | some r =>
      have within := (registry_value accepted).1
      have names := candidate_names_nodup limits kind declarations
      have taken : e.id.toNat ∈ takenSlots kind (candidatesOf limits kind declarations) :=
        (a.takenSlots_perm names).mem_iff.mpr (List.mem_map_of_mem member)
      have under := UInt32.le_iff_toNat_le.mpr (within _ taken)
      exact False.elim (UInt32.not_lt.mpr under above)

end Registers

def drag : TypeDecl := { name := "Drag", kind := .component, manualId := some 0 }

def lift : TypeDecl := { name := "Lift", kind := .component, manualId := some 0 }

def kite : TypeDecl := { name := "Kite", kind := .component }

def mass : TypeDecl := { name := "Mass", kind := .component, alignment := 4 }

def gusty : List TypeDecl := [drag, kite, lift, mass]

def gustyEntries : List Entry := [⟨mass, 0, .auto⟩, ⟨kite, 1, .auto⟩]

theorem gusty_registry : (registry {} gusty .component).value? =
    some (.ofEntries {} .component gustyEntries) :=
  registry_iff_assigns.mpr ⟨by decide, by decide⟩

theorem uncontested_iff_alone {candidates : List TypeDecl} (nodup : candidates.Nodup)
    {d : TypeDecl} (member : d ∈ candidates) : uncontested candidates d = true ↔
      ∀ id, d.manualId = some id → ∀ x ∈ candidates, x.manualId = some id → x = d := by
  rw [uncontested_iff]
  constructor
  · intro sole id asks x candidate same
    have inside := mem_requesters.mpr ⟨candidate, same⟩
    rw [sole id asks] at inside
    exact List.mem_singleton.mp inside
  · intro alone id asks
    apply List.perm_singleton.mp
    refine (List.perm_ext_iff_of_nodup (nodup.filter _) (List.nodup_singleton d)).mpr fun x => ?_
    change x ∈ requesters candidates id ↔ _
    rw [mem_requesters, List.mem_singleton]
    constructor
    · rintro ⟨candidate, same⟩
      exact alone id asks x candidate same
    · rintro rfl
      exact ⟨member, asks⟩

theorem uncontested_of_subset {candidates fewer : List TypeDecl} (nodup : candidates.Nodup)
    (few : fewer.Nodup) (sub : fewer ⊆ candidates) {d : TypeDecl} (member : d ∈ fewer)
    (free : uncontested candidates d = true) : uncontested fewer d = true := by
  have alone := (uncontested_iff_alone nodup (sub member)).mp free
  exact (uncontested_iff_alone few member).mpr fun id asks x inside =>
    alone id asks x (sub inside)

end EcsPlan
