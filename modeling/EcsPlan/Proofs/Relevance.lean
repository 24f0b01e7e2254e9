import EcsPlan.Report
import EcsPlan.Proofs.Relations

/-!
What a pass reads of a declaration. Each kind has fields that mean nothing for it, and of a
GUID only that it is accepted matters. A declaration is reduced to its essence by resetting
what does not matter; every stage commutes with that, so the report cannot tell apart
declarations of one essence.
-/
namespace EcsPlan

namespace TypeDecl

def guidAccepted (d : TypeDecl) : Bool := d.guid.all fun guid => Guid.accepts guid.toList

/-- `e` is `d` up to the fields that its kind has no use for and to the GUID, if neither has
    a malformed one. -/
structure SameMeaning (d e : TypeDecl) : Prop where
  name : d.name = e.name
  kind : d.kind = e.kind
  wellFormed : d.wellFormed = e.wellFormed
  nestedInGeneric : d.nestedInGeneric = e.nestedInGeneric
  manualId : d.manualId = e.manualId
  place : d.place = e.place
  hasFields : d.kind = .tag → d.hasFields = e.hasFields
  unmanaged : d.kind = .component ∨ d.kind = .tag → d.unmanaged = e.unmanaged
  alignment : d.kind = .component → d.manualId = none → d.alignment = e.alignment
  after : d.kind = .system → d.after = e.after
  before : d.kind = .system → d.before = e.before
  guid : d.guid = e.guid ∨ d.guidAccepted = true ∧ e.guidAccepted = true

def essence (d : TypeDecl) : TypeDecl where
  name := d.name
  kind := d.kind
  wellFormed := d.wellFormed
  hasFields := if d.kind = .tag then d.hasFields else false
  unmanaged := if d.kind = .component ∨ d.kind = .tag then d.unmanaged else true
  nestedInGeneric := d.nestedInGeneric
  alignment := if d.kind = .component ∧ d.manualId = none then d.alignment else 1
  manualId := d.manualId
  guid := if d.guidAccepted then none else d.guid
  after := if d.kind = .system then d.after else []
  before := if d.kind = .system then d.before else []
  place := d.place

@[simp] theorem essence_name (d : TypeDecl) : d.essence.name = d.name := rfl

@[simp] theorem essence_kind (d : TypeDecl) : d.essence.kind = d.kind := rfl

theorem essence_eq {d e : TypeDecl} (same : d.SameMeaning e) : d.essence = e.essence := by
  obtain ⟨name, kind, wellFormed, nested, manualId, place, hasFields, unmanaged, alignment,
    after, before, guid⟩ := same
  have guids : (if d.guidAccepted then none else d.guid) =
      if e.guidAccepted then none else e.guid := by
    rcases guid with same | ⟨left, right⟩
    · rw [guidAccepted, guidAccepted, same]
    · rw [if_pos left, if_pos right]
  rw [essence, essence, guids]
  rw [kind] at hasFields unmanaged alignment after before
  rw [manualId] at alignment
  cases own : e.kind <;> simp_all

theorem sameMeaning_iff {d e : TypeDecl} : d.SameMeaning e ↔ d.essence = e.essence := by
  refine ⟨essence_eq, fun same => ?_⟩
  simp only [essence, TypeDecl.mk.injEq] at same
  obtain ⟨name, kind, wellFormed, hasFields, unmanaged, nested, alignment, manualId, guid, after,
    before, place⟩ := same
  rw [kind] at hasFields unmanaged alignment after before
  rw [manualId] at alignment
  refine ⟨name, kind, wellFormed, nested, manualId, place, ?_, ?_, ?_, ?_, ?_, ?_⟩
  · intro tag
    simpa only [kind ▸ tag, if_true] using hasFields
  · intro either
    simpa only [kind ▸ either, if_true] using unmanaged
  · intro component free
    simpa only [kind ▸ component, manualId ▸ free, and_self, if_true] using alignment
  · intro system
    simpa only [kind ▸ system, if_true] using after
  · intro system
    simpa only [kind ▸ system, if_true] using before
  · by_cases left : d.guidAccepted = true
    · refine .inr ⟨left, ?_⟩
      by_cases right : e.guidAccepted = true
      · exact right
      · rw [if_pos left, if_neg right] at guid
        rw [guidAccepted, ← guid]
        rfl
    · by_cases right : e.guidAccepted = true
      · rw [if_neg left, if_pos right] at guid
        rw [guidAccepted, guid] at left
        exact False.elim (left rfl)
      · rw [if_neg left, if_neg right] at guid
        exact .inl guid

instance : DecidableRel SameMeaning := fun _ _ => decidable_of_iff _ sameMeaning_iff.symm

theorem defects_essence (limits : Limits) (d : TypeDecl) :
    d.essence.defects limits = d.defects limits := by
  cases given : d.guid with
  | none => cases own : d.kind <;> simp [defects, essence, guidAccepted, own, given]
  | some guid =>
    by_cases accepted : Guid.accepts guid.toList = true
    · cases own : d.kind <;> simp [defects, essence, guidAccepted, own, given, accepted]
    · cases own : d.kind <;> simp [defects, essence, guidAccepted, own, given, accepted]

theorem defectReports_essence (limits : Limits) (d : TypeDecl) :
    d.essence.defectReports limits = d.defectReports limits := by
  rw [defectReports, defects_essence]
  rfl

theorem sound_essence (limits : Limits) (d : TypeDecl) :
    d.essence.sound limits = d.sound limits := by
  rw [sound, defects_essence]
  rfl

end TypeDecl

section Screen
variable {limits : Limits} {kind : Kind} {declarations : List TypeDecl}

theorem firstPlace_essence (group : List TypeDecl) :
    firstPlace (group.map TypeDecl.essence) = firstPlace group := by
  rw [firstPlace, List.findSome?_map]
  rfl

theorem sharedNameReport_essence :
    sharedNameReport kind (declarations.map TypeDecl.essence) =
      sharedNameReport kind declarations := by
  funext name
  have group : bearers name (declarations.map TypeDecl.essence) =
      (bearers name declarations).map TypeDecl.essence := List.filter_map
  simp only [sharedNameReport, group, List.length_map, firstPlace_essence]

theorem sharedNames_essence :
    sharedNames (declarations.map TypeDecl.essence) = sharedNames declarations := by
  rw [sharedNames, isShared_map TypeDecl.essence_name, List.map_map]
  rfl

theorem soundOf_essence : soundOf limits kind (declarations.map TypeDecl.essence) =
    (soundOf limits kind declarations).map TypeDecl.essence := by
  rw [soundOf, ofKind_map TypeDecl.essence_kind, List.filter_map]
  exact congrArg _ (List.filter_congr fun d _ => d.sound_essence limits)

theorem candidatesOf_essence : candidatesOf limits kind (declarations.map TypeDecl.essence) =
    (candidatesOf limits kind declarations).map TypeDecl.essence :=
  candidatesOf_map TypeDecl.essence_name TypeDecl.essence_kind fun d _ => d.sound_essence limits

theorem screen_essence : (screen limits kind (declarations.map TypeDecl.essence)).diagnostics =
    (screen limits kind declarations).diagnostics := by
  change (ofKind kind (declarations.map TypeDecl.essence)).flatMap _ ++
      (sharedNames (soundOf limits kind (declarations.map TypeDecl.essence))).toList.map
        (sharedNameReport kind (soundOf limits kind (declarations.map TypeDecl.essence))) =
    (ofKind kind declarations).flatMap _ ++ (sharedNames (soundOf limits kind declarations)
      ).toList.map (sharedNameReport kind (soundOf limits kind declarations))
  rw [ofKind_map TypeDecl.essence_kind, List.flatMap_map, soundOf_essence, sharedNames_essence,
    sharedNameReport_essence]
  exact congrArg (· ++ _) (List.flatMap_congr fun d _ => d.defectReports_essence limits)

end Screen

namespace Entry

def essence (e : Entry) : Entry := { e with owner := e.owner.essence }

@[simp] theorem essence_id (e : Entry) : e.essence.id = e.id := rfl

@[simp] theorem essence_name (e : Entry) : e.essence.name = e.name := rfl

theorem essence_relations {e : Entry} (system : e.owner.kind = .system) :
    e.essence.relations = e.relations := by
  simp [relations, essence, TypeDecl.essence, system]

end Entry

section Numbers
variable {kind : Kind} {candidates : List TypeDecl}

theorem requesters_essence (id : UInt32) : requesters (candidates.map TypeDecl.essence) id =
    (requesters candidates id).map TypeDecl.essence := List.filter_map

theorem requestedIds_essence :
    requestedIds (candidates.map TypeDecl.essence) = requestedIds candidates := by
  rw [requestedIds, List.filterMap_map]
  rfl

theorem grant_essence (id : UInt32) : grant (candidates.map TypeDecl.essence) id =
    (grant candidates id).map Entry.essence := by
  rw [grant, grant, requesters_essence]
  rcases requesters candidates id with _ | ⟨d, _ | ⟨next, rest⟩⟩ <;> rfl

theorem contest_essence (id : UInt32) :
    contest kind (candidates.map TypeDecl.essence) id = contest kind candidates id := by
  rw [contest, contest, requesters_essence]
  rcases requesters candidates id with _ | ⟨d, _ | ⟨next, rest⟩⟩
  · rfl
  · rfl
  · have names : ((d :: next :: rest).map TypeDecl.essence).map TypeDecl.name =
        (d :: next :: rest).map TypeDecl.name := by
      rw [List.map_map]
      rfl
    have place := firstPlace_essence (d :: next :: rest)
    simp only [List.map_cons] at names place ⊢
    rw [names, place]

theorem grantedEntries_essence : grantedEntries (candidates.map TypeDecl.essence) =
    (grantedEntries candidates).map Entry.essence := by
  rw [grantedEntries, grantedEntries, requestedIds_essence, List.map_filterMap]
  exact List.filterMap_congr fun id _ => grant_essence id

theorem contests_essence :
    contests kind (candidates.map TypeDecl.essence) = contests kind candidates := by
  rw [contests, contests, requestedIds_essence]
  exact List.filterMap_congr fun id _ => contest_essence id

/-- The alignment matters for components that ask for no ID, and only these are sorted. -/
theorem unpinned_essence (own : ∀ d ∈ candidates, d.kind = kind) :
    unpinned kind (candidates.map TypeDecl.essence) =
      (unpinned kind candidates).map TypeDecl.essence := by
  have order : ∀ a ∈ candidates.filter (·.manualId.isNone),
      ∀ b ∈ candidates.filter (·.manualId.isNone),
        kind.order a b = kind.order a.essence b.essence := by
    intro a inA b inB
    obtain ⟨left, freeA⟩ := List.mem_filter.mp inA
    obtain ⟨right, freeB⟩ := List.mem_filter.mp inB
    have kindA := own a left
    have kindB := own b right
    cases kind <;> simp_all [Kind.order, TypeDecl.essence]
  rw [unpinned, unpinned, List.filter_map]
  refine (List.map_mergeSort fun a inA b inB => ?_).symm
  rw [order a inA b inB]

theorem fillSlots_map (f : TypeDecl → TypeDecl) (reserved : List Nat) (next : Nat)
    (ds : List TypeDecl) : fillSlots reserved next (ds.map f) =
      (fillSlots reserved next ds).map fun p => (f p.1, p.2) := by
  induction ds generalizing reserved next with
  | nil => rfl
  | cons d rest ih => simp only [List.map_cons, fillSlots, ih]

theorem numbering_essence (maxId : UInt32) (own : ∀ d ∈ candidates, d.kind = kind) :
    numbering kind maxId (candidates.map TypeDecl.essence) =
      (numbering kind maxId candidates).map (List.map Entry.essence) := by
  have reserved : ((grantedEntries candidates).map Entry.essence).map (·.id.toNat) =
      (grantedEntries candidates).map (·.id.toNat) := by
    rw [List.map_map]
    rfl
  have filled : filledSlots kind (candidates.map TypeDecl.essence) =
      (filledSlots kind candidates).map fun p => (p.1.essence, p.2) := by
    rw [filledSlots, grantedEntries_essence, reserved, unpinned_essence own, fillSlots_map]
    rfl
  have taken : takenSlots kind (candidates.map TypeDecl.essence) =
      takenSlots kind candidates := by
    rw [takenSlots, takenSlots, grantedEntries_essence, reserved, filled, List.map_map]
    rfl
  have automatic : automaticEntries (filledSlots kind (candidates.map TypeDecl.essence)) =
      (automaticEntries (filledSlots kind candidates)).map Entry.essence := by
    rw [filled, automaticEntries, automaticEntries, List.map_map, List.map_map]
    rfl
  have entries : assigned kind (candidates.map TypeDecl.essence) =
      (assigned kind candidates).map Entry.essence := by
    rw [assigned, assigned, grantedEntries_essence, automatic, ← List.map_append,
      sortById_map Entry.essence_id]
  by_cases within : WithinLimit kind maxId candidates
  · have again : WithinLimit kind maxId (candidates.map TypeDecl.essence) := by
      rwa [WithinLimit, taken]
    rw [numbering_within within, numbering_within again, entries, contests_essence,
      Outcome.map_usable]
  · have again : ¬ WithinLimit kind maxId (candidates.map TypeDecl.essence) := by
      rwa [WithinLimit, taken]
    rw [numbering_beyond within, numbering_beyond again, contests_essence, shownHighest, taken]
    rfl

end Numbers

def Registry.essence (r : Registry) : Registry :=
  { r with entries := r.entries.map Entry.essence }

section Passes
variable {limits : Limits} {declarations : List TypeDecl}

theorem registry_essence (kind : Kind) :
    registry limits (declarations.map TypeDecl.essence) kind =
      (registry limits declarations kind).map Registry.essence := by
  have own : ∀ d ∈ candidatesOf limits kind declarations, d.kind = kind :=
    fun d member => (mem_ofKind.mp (candidate_of_kind member)).2
  have form (entries : List Entry) : Registry.ofEntries limits kind (entries.map Entry.essence) =
      (Registry.ofEntries limits kind entries).essence := by
    have ids : (entries.map Entry.essence).map (·.id) = entries.map (·.id) := by
      rw [List.map_map]
      rfl
    simp only [Registry.ofEntries, Registry.essence, ids]
  change ((numbering kind limits.maxId (candidatesOf limits kind _)).map _).precededBy _ =
    (((numbering kind limits.maxId (candidatesOf limits kind _)).map _).precededBy _).map _
  rw [candidatesOf_essence, numbering_essence limits.maxId own, screen_essence,
    Outcome.map_precededBy, Outcome.map_map, Outcome.map_map, funext form]

theorem visibleNames_essence (o : Outcome Registry) :
    visibleNames (o.map Registry.essence) = visibleNames o := by
  rw [visibleNames, Outcome.map_value?, Option.map_map]
  have tables : Registry.table ∘ Registry.essence = Registry.table := by
    funext r
    exact nameTable_map Entry.essence_id Entry.essence_name r.entries
  rw [tables]
  rfl

theorem compileQueries_essence (components tags : Outcome Registry) (queries : List QueryDecl) :
    compileQueries (components.map Registry.essence) (tags.map Registry.essence) queries =
      compileQueries components tags queries := by
  have width (o : Outcome Registry) : visibleWidth (o.map Registry.essence) = visibleWidth o := by
    rw [visibleWidth, Outcome.map_value?, Option.map_map]
    rfl
  simp only [compileQueries, visibleNames_essence, width]

theorem scheduleSystems_essence :
    scheduleSystems ((registry limits declarations .system).map Registry.essence) =
      scheduleSystems (registry limits declarations .system) := by
  rw [scheduleSystems, scheduleSystems, Outcome.map_value?]
  cases accepted : (registry limits declarations .system).value? with
  | none => rfl
  | some r =>
    obtain ⟨_, rfl⟩ := registry_value accepted
    refine schedule_map Entry.essence_id Entry.essence_name (fun e member => ?_) fun e _ => rfl
    exact Entry.essence_relations (mem_ofKind.mp (candidate_of_kind (entry_owner member))).2

theorem registryTree_essence (o : Outcome Registry) :
    (o.map Registry.essence).tree Registry.tree = o.tree Registry.tree := by
  have value (r : Registry) : r.essence.tree = r.tree := by
    simp only [Registry.tree, Registry.essence, Json.listTree, List.map_map]
    rfl
  rw [Outcome.tree, Outcome.tree, Outcome.map_value?, Outcome.map_statusText,
    Outcome.map_diagnostics]
  cases o.value? <;> simp [Json.optionTree, value]

theorem reportTree_essence (declarations : List TypeDecl) (queries : List QueryDecl) :
    (Report.ofSnapshot ⟨limits, declarations.map TypeDecl.essence, queries⟩).tree =
      (Report.ofSnapshot ⟨limits, declarations, queries⟩).tree := by
  simp only [Report.tree, Report.ofSnapshot, Report.diagnostics, Plan.ofSnapshot, Plan.make,
    Plan.diagnostics, registry_essence, compileQueries_essence, scheduleSystems_essence,
    registryTree_essence, Outcome.map_diagnostics]

end Passes

/-- What a kind has no use for may be anything in any number of declarations, and a
    well-formed GUID any other one or none: the text of the report is the same. -/
theorem report_of_same_meaning (limits : Limits) {left right : List TypeDecl}
    (queries : List QueryDecl) (same : List.Forall₂ TypeDecl.SameMeaning left right)
    (pretty : Bool) : (Report.ofSnapshot ⟨limits, left, queries⟩).text pretty =
      (Report.ofSnapshot ⟨limits, right, queries⟩).text pretty := by
  have essences : left.map TypeDecl.essence = right.map TypeDecl.essence := by
    induction same with
    | nil => rfl
    | cons one _ ih => rw [List.map_cons, List.map_cons, TypeDecl.essence_eq one, ih]
  rw [Report.text, Report.text, ← reportTree_essence left, essences,
    reportTree_essence]

def rock : TypeDecl := { name := "Rock", kind := .component, manualId := some 3, alignment := 16 }

def fog : TypeDecl where
  name := "Fog"
  kind := .tag
  guid := some "0123456789abcdef0123456789ABCDEF"

def tide : TypeDecl := { name := "Tide", kind := .system, after := ["Moon"], hasFields := true }

theorem rocky_report :
    let others := [{ rock with alignment := 4, after := ["Moon"] },
      { fog with guid := none, alignment := 2 },
      { tide with hasFields := false, unmanaged := false }]
    List.Forall₂ TypeDecl.SameMeaning [rock, fog, tide] others ∧
      (Report.ofSnapshot ⟨{}, [rock, fog, tide], []⟩).text true =
        (Report.ofSnapshot ⟨{}, others, []⟩).text true := by
  intro others
  have same : List.Forall₂ TypeDecl.SameMeaning [rock, fog, tide] others := by decide
  exact ⟨same, report_of_same_meaning {} [] same true⟩

/-- The alignment of a component that asks for no ID does matter. -/
example : ¬ TypeDecl.SameMeaning { rock with manualId := none }
    { rock with manualId := none, alignment := 4 } := by
  decide

end EcsPlan
