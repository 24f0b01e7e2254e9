import EcsPlan.Proofs.Ascending
import EcsPlan.Proofs.Slots
import EcsPlan.Proofs.Stages
import Mathlib.Data.List.Nodup

namespace EcsPlan

def grantedEntries (candidates : List TypeDecl) : List Entry :=
  (requestedIds candidates).toList.filterMap (grant candidates)

def contests (kind : Kind) (candidates : List TypeDecl) : List Diagnostic :=
  (requestedIds candidates).toList.filterMap (contest kind candidates)

def filledSlots (kind : Kind) (candidates : List TypeDecl) : List (TypeDecl × Nat) :=
  fillSlots ((grantedEntries candidates).map (·.id.toNat)) 0 (unpinned kind candidates)

def automaticEntries (filled : List (TypeDecl × Nat)) : List Entry :=
  filled.map fun (d, slot) => Entry.mk d (.ofNat slot) .auto

def assigned (kind : Kind) (candidates : List TypeDecl) : List Entry :=
  sortById (grantedEntries candidates ++ automaticEntries (filledSlots kind candidates))

def takenSlots (kind : Kind) (candidates : List TypeDecl) : List Nat :=
  (grantedEntries candidates).map (·.id.toNat) ++ (filledSlots kind candidates).map (·.2)

def WithinLimit (kind : Kind) (maxId : UInt32) (candidates : List TypeDecl) : Prop :=
  ∀ slot ∈ takenSlots kind candidates, slot ≤ maxId.toNat

def shownHighest (kind : Kind) (candidates : List TypeDecl) : UInt32 :=
  .ofNat (min ((takenSlots kind candidates).max?.getD 0) (UInt32.size - 1))

instance (kind : Kind) : Std.TransCmp kind.order := by
  cases kind
  · exact inferInstanceAs (Std.TransCmp (compareLex
      (fun a b => compareOn TypeDecl.alignment b a) (compareOn TypeDecl.name)))
  all_goals exact inferInstanceAs (Std.TransCmp (compareOn TypeDecl.name))

theorem order_eq_names {kind : Kind} {a b : TypeDecl} (same : kind.order a b = .eq) :
    a.name = b.name := by
  have names : compare a.name b.name = .eq := by
    cases kind with
    | component => exact (Ordering.then_eq_eq.mp same).2
    | tag => exact same
    | queryable => exact same
    | system => exact same
  exact Std.LawfulEqCmp.eq_of_compare names

theorem max?_le_iff {slots : List Nat} {limit : Nat} :
    slots.max?.filter (limit < ·) = none ↔ ∀ slot ∈ slots, slot ≤ limit := by
  cases h : slots.max? with
  | none =>
    rw [List.max?_eq_none_iff] at h
    simp [h]
  | some highest =>
    have bound := List.max?_le_iff h (x := limit)
    simp [← bound]

theorem numbering_within {kind : Kind} {maxId : UInt32} {candidates : List TypeDecl}
    (within : WithinLimit kind maxId candidates) :
    numbering kind maxId candidates =
      .usable (assigned kind candidates) (contests kind candidates) := by
  have below : (highestSlot (grantedEntries candidates) (filledSlots kind candidates)).filter
      (maxId.toNat < ·) = none := max?_le_iff.mpr within
  simp only [grantedEntries, filledSlots] at below
  simp only [numbering, below]
  rfl

theorem numbering_beyond {kind : Kind} {maxId : UInt32} {candidates : List TypeDecl}
    (beyond : ¬ WithinLimit kind maxId candidates) :
    numbering kind maxId candidates = .rejected (contests kind candidates ++
      [(Finding.capacity kind (shownHighest kind candidates) maxId).diagnostic]) := by
  have above : (highestSlot (grantedEntries candidates) (filledSlots kind candidates)).filter
      (maxId.toNat < ·) ≠ none := fun inside => beyond (max?_le_iff.mp inside)
  obtain ⟨highest, found⟩ := Option.ne_none_iff_exists'.mp above
  obtain ⟨isMax, _⟩ := Option.filter_eq_some_iff.mp found
  have shown : shownHighest kind candidates = .ofNat (min highest (UInt32.size - 1)) := by
    simp only [shownHighest, takenSlots]
    rw [show ((grantedEntries candidates).map (·.id.toNat) ++
      (filledSlots kind candidates).map (·.2)).max? = some highest from isMax]
    rfl
  simp only [grantedEntries, filledSlots] at found
  simp only [numbering, found, shown]
  rfl

theorem mem_requesters {candidates : List TypeDecl} {id : UInt32} {d : TypeDecl} :
    d ∈ requesters candidates id ↔ d ∈ candidates ∧ d.manualId = some id := by
  simp [requesters]

theorem mem_requestedIds {candidates : List TypeDecl} {id : UInt32} :
    id ∈ (requestedIds candidates).toList ↔ requesters candidates id ≠ [] := by
  rw [Ne, List.eq_nil_iff_forall_not_mem]
  simp [requestedIds, mem_requesters]

theorem grant_eq_some_iff {candidates : List TypeDecl} {id : UInt32} {e : Entry} :
    grant candidates id = some e ↔
      e = ⟨e.owner, id, .manual⟩ ∧ requesters candidates id = [e.owner] := by
  unfold grant
  split
  · rename_i owner sole
    constructor
    · intro eq
      cases Option.some.inj eq
      exact ⟨rfl, sole⟩
    · intro found
      obtain ⟨eq, same⟩ := found
      rw [sole] at same
      rw [eq, (List.cons.inj same).1]
  · rename_i several
    simp only [reduceCtorEq, false_iff]
    intro found
    obtain ⟨_, sole⟩ := found
    exact several _ sole

theorem mem_grantedEntries {candidates : List TypeDecl} {e : Entry} :
    e ∈ grantedEntries candidates ↔
      e.source = .manual ∧ requesters candidates e.id = [e.owner] := by
  simp only [grantedEntries, List.mem_filterMap, grant_eq_some_iff]
  constructor
  · intro found
    obtain ⟨id, _, eq, sole⟩ := found
    have sameId : e.id = id := by rw [eq]
    have sameSource : e.source = .manual := by rw [eq]
    exact ⟨sameSource, sameId ▸ sole⟩
  · intro found
    obtain ⟨manual, sole⟩ := found
    refine ⟨e.id, mem_requestedIds.mpr (by simp [sole]), ?_, sole⟩
    cases e
    simp_all

theorem granted_ascending (candidates : List TypeDecl) :
    (grantedEntries candidates).Pairwise (·.id < ·.id) := by
  refine List.Pairwise.filterMap _ ?_ (requestedIds candidates).ascending
  intro a b lt e he f hf
  have ea : e.id = a := by rw [(grant_eq_some_iff.mp he).1]
  have fb : f.id = b := by rw [(grant_eq_some_iff.mp hf).1]
  rw [ea, fb]
  exact Std.compare_eq_lt.mp lt

theorem granted_reserved (candidates : List TypeDecl) :
    Reserved 0 ((grantedEntries candidates).map (·.id.toNat)) := by
  refine ⟨List.pairwise_map.mpr ?_, fun _ _ => Nat.zero_le _⟩
  exact (granted_ascending candidates).imp UInt32.lt_iff_toNat_lt.mp

theorem filled_ascending (kind : Kind) (candidates : List TypeDecl) :
    ((filledSlots kind candidates).map (·.2)).Pairwise (· < ·) :=
  fillSlots_ascending (granted_reserved candidates) _

theorem filled_free {kind : Kind} {candidates : List TypeDecl} {p : TypeDecl × Nat}
    (filled : p ∈ filledSlots kind candidates) {e : Entry}
    (granted : e ∈ grantedEntries candidates) : p.2 ≠ e.id.toNat := by
  intro same
  apply fillSlots_free (granted_reserved candidates) _ p filled
  rw [same]
  exact List.mem_map_of_mem granted

theorem slots_nodup (kind : Kind) (candidates : List TypeDecl) :
    (takenSlots kind candidates).Nodup := by
  refine List.nodup_append.mpr ⟨?_, ?_, ?_⟩
  · exact (granted_reserved candidates).1.imp Nat.ne_of_lt
  · exact (filled_ascending kind candidates).imp Nat.ne_of_lt
  · intro a granted b filled
    obtain ⟨e, he, rfl⟩ := List.mem_map.mp granted
    obtain ⟨p, hp, rfl⟩ := List.mem_map.mp filled
    exact (filled_free hp he).symm

theorem assigned_perm (kind : Kind) (candidates : List TypeDecl) :
    (assigned kind candidates).Perm
      (grantedEntries candidates ++ automaticEntries (filledSlots kind candidates)) :=
  List.mergeSort_perm _ _

theorem slot_lt_size {kind : Kind} {maxId : UInt32} {candidates : List TypeDecl}
    (within : WithinLimit kind maxId candidates) {p : TypeDecl × Nat}
    (filled : p ∈ filledSlots kind candidates) : p.2 ≤ maxId.toNat ∧ p.2 < UInt32.size := by
  have bound := within p.2 (List.mem_append_right _ (List.mem_map_of_mem filled))
  exact ⟨bound, Nat.lt_of_le_of_lt bound maxId.toNat_lt_size⟩

/-- Within the limit no slot is cut off, so the entries bear the slots as IDs. -/
theorem automatic_slots {kind : Kind} {maxId : UInt32} {candidates : List TypeDecl}
    (within : WithinLimit kind maxId candidates) :
    (automaticEntries (filledSlots kind candidates)).map (·.id.toNat) =
      (filledSlots kind candidates).map (·.2) := by
  rw [automaticEntries, List.map_map]
  apply List.map_congr_left
  intro p filled
  exact UInt32.toNat_ofNat_of_lt' (slot_lt_size within filled).2

theorem automatic_ascending {kind : Kind} {maxId : UInt32} {candidates : List TypeDecl}
    (within : WithinLimit kind maxId candidates) :
    (automaticEntries (filledSlots kind candidates)).Pairwise (·.id < ·.id) := by
  have slots := filled_ascending kind candidates
  rw [← automatic_slots within] at slots
  exact (List.pairwise_map.mp slots).imp UInt32.lt_iff_toNat_lt.mpr

theorem entry_slots {kind : Kind} {maxId : UInt32} {candidates : List TypeDecl}
    (within : WithinLimit kind maxId candidates) :
    (grantedEntries candidates ++ automaticEntries (filledSlots kind candidates)).map
      (·.id.toNat) = takenSlots kind candidates := by
  rw [List.map_append, automatic_slots within, takenSlots]

theorem assigned_le {kind : Kind} {maxId : UInt32} {candidates : List TypeDecl}
    (within : WithinLimit kind maxId candidates) {e : Entry}
    (member : e ∈ assigned kind candidates) : e.id ≤ maxId := by
  have inside := (assigned_perm kind candidates).mem_iff.mp member
  apply UInt32.le_iff_toNat_le.mpr
  apply within
  rw [← entry_slots within]
  exact List.mem_map_of_mem inside

theorem assigned_ascending {kind : Kind} {maxId : UInt32} {candidates : List TypeDecl}
    (within : WithinLimit kind maxId candidates) :
    (assigned kind candidates).Pairwise (·.id < ·.id) := by
  have distinct : ((assigned kind candidates).map (·.id.toNat)).Nodup := by
    rw [((assigned_perm kind candidates).map _).nodup_iff, entry_slots within]
    exact slots_nodup kind candidates
  have sorted := mergeSort_ascending (compareOn Entry.id)
    (grantedEntries candidates ++ automaticEntries (filledSlots kind candidates))
  refine (sorted.and (List.pairwise_map.mp distinct)).imp fun {e f} ⟨le, ne⟩ => ?_
  have order : e.id ≤ f.id := Std.isLE_compare.mp le
  rw [UInt32.le_iff_toNat_le] at order
  rw [UInt32.lt_iff_toNat_lt]
  omega

theorem granted_owner {candidates : List TypeDecl} {e : Entry}
    (granted : e ∈ grantedEntries candidates) :
    e.owner ∈ candidates ∧ e.owner.manualId = some e.id := by
  apply mem_requesters.mp
  rw [(mem_grantedEntries.mp granted).2]
  simp

def uncontested (candidates : List TypeDecl) (d : TypeDecl) : Bool :=
  match d.manualId with
  | some id => requesters candidates id = [d]
  | none => true

theorem uncontested_iff {candidates : List TypeDecl} {d : TypeDecl} :
    uncontested candidates d = true ↔
      ∀ id, d.manualId = some id → requesters candidates id = [d] := by
  cases asks : d.manualId <;> simp [uncontested, asks]

theorem uncontested_congr {candidates others : List TypeDecl} {d : TypeDecl}
    (same : ∀ id, d.manualId = some id → requesters candidates id = requesters others id) :
    uncontested candidates d = uncontested others d := by
  cases asks : d.manualId with
  | none => simp only [uncontested, asks]
  | some id => simp only [uncontested, asks, same id asks]

theorem granted_owners_nodup (candidates : List TypeDecl) :
    ((grantedEntries candidates).map (·.owner)).Nodup := by
  apply List.pairwise_map.mpr
  apply (granted_ascending candidates).imp_of_mem
  intro e f he hf lt same
  have left := (granted_owner he).2
  have right := (granted_owner hf).2
  rw [same, right] at left
  rw [Option.some.inj left] at lt
  exact UInt32.lt_irrefl _ lt

theorem sole_requesters_nodup (candidates : List TypeDecl) :
    ((candidates.filter (uncontested candidates)).filter (·.manualId.isSome)).Nodup := by
  apply List.nodup_iff_count_le_one.mpr
  intro d
  by_cases member : d ∈ (candidates.filter (uncontested candidates)).filter (·.manualId.isSome)
  · simp only [List.mem_filter] at member
    obtain ⟨⟨_, free⟩, pinned⟩ := member
    obtain ⟨id, asks⟩ := Option.isSome_iff_exists.mp pinned
    have sole := uncontested_iff.mp free id asks
    have once : candidates.count d = 1 := by
      rw [← List.count_filter (p := (·.manualId = some id)) (by simp [asks])]
      change (requesters candidates id).count d = 1
      rw [sole, List.count_singleton_self]
    have kept := List.count_filter (p := fun x : TypeDecl => x.manualId.isSome)
      (l := candidates.filter (uncontested candidates)) pinned
    exact Nat.le_of_eq (kept.trans ((List.count_filter free).trans once))
  · rw [List.count_eq_zero_of_not_mem member]
    exact Nat.zero_le 1

theorem granted_owners_perm (candidates : List TypeDecl) :
    ((grantedEntries candidates).map (·.owner)).Perm
      ((candidates.filter (uncontested candidates)).filter (·.manualId.isSome)) := by
  refine (List.perm_ext_iff_of_nodup (granted_owners_nodup candidates)
    (sole_requesters_nodup candidates)).mpr fun d => ?_
  simp only [List.mem_map, List.mem_filter]
  constructor
  · intro found
    obtain ⟨e, granted, rfl⟩ := found
    obtain ⟨member, asks⟩ := granted_owner granted
    have sole := (mem_grantedEntries.mp granted).2
    refine ⟨⟨member, uncontested_iff.mpr fun id same => ?_⟩, by simp [asks]⟩
    rw [← Option.some.inj (asks.symm.trans same), sole]
  · intro found
    obtain ⟨⟨_, free⟩, pinned⟩ := found
    obtain ⟨id, asks⟩ := Option.isSome_iff_exists.mp pinned
    have sole := uncontested_iff.mp free id asks
    exact ⟨⟨d, id, .manual⟩, mem_grantedEntries.mpr ⟨rfl, sole⟩, rfl⟩

theorem automatic_owners (kind : Kind) (candidates : List TypeDecl) :
    (automaticEntries (filledSlots kind candidates)).map (·.owner) =
      unpinned kind candidates := by
  rw [automaticEntries, List.map_map]
  exact fillSlots_owners _ _ _

/-- Exactly the uncontested candidates are given an entry, each of them one. -/
theorem assigned_owners_perm (kind : Kind) (candidates : List TypeDecl) :
    ((assigned kind candidates).map (·.owner)).Perm
      (candidates.filter (uncontested candidates)) := by
  have automatic : ((automaticEntries (filledSlots kind candidates)).map (·.owner)).Perm
      ((candidates.filter (uncontested candidates)).filter (!·.manualId.isSome)) := by
    rw [automatic_owners, unpinned, List.filter_filter]
    refine (List.mergeSort_perm _ _).trans (List.Perm.of_eq (List.filter_congr ?_))
    intro d _
    cases h : d.manualId <;> simp [uncontested, h]
  calc ((assigned kind candidates).map (·.owner)).Perm _ :=
        ((assigned_perm kind candidates).map _).trans (List.Perm.of_eq List.map_append)
    _ |>.Perm _ := (granted_owners_perm candidates).append automatic
    _ |>.Perm _ := List.filter_append_perm _ _

theorem mem_owners {kind : Kind} {candidates : List TypeDecl} {d : TypeDecl} :
    (∃ e ∈ assigned kind candidates, e.owner = d) ↔
      d ∈ candidates ∧ uncontested candidates d = true := by
  rw [← List.mem_map, (assigned_owners_perm kind candidates).mem_iff, List.mem_filter]

theorem contest_eq_none_iff {kind : Kind} {candidates : List TypeDecl} {id : UInt32} :
    contest kind candidates id = none ↔ (requesters candidates id).length ≤ 1 := by
  unfold contest
  rcases requesters candidates id with _ | ⟨d, _ | ⟨next, rest⟩⟩ <;> simp

theorem contests_report {kind : Kind} {candidates : List TypeDecl} {d : Diagnostic}
    (member : d ∈ contests kind candidates) :
    ∃ id names place, d = (Finding.contestedId kind id names place).diagnostic := by
  obtain ⟨id, _, found⟩ := List.mem_filterMap.mp member
  unfold contest at found
  split at found
  · contradiction
  · contradiction
  · exact ⟨id, _, _, (Option.some.inj found).symm⟩

theorem numbering_reports {kind : Kind} {maxId : UInt32} {candidates : List TypeDecl}
    {d : Diagnostic} (member : d ∈ (numbering kind maxId candidates).diagnostics) :
    (∃ id names place, d = (Finding.contestedId kind id names place).diagnostic) ∨
      ∃ highest, d = (Finding.capacity kind highest maxId).diagnostic := by
  by_cases within : WithinLimit kind maxId candidates
  · rw [numbering_within within, Outcome.usable_diagnostics] at member
    exact .inl (contests_report member)
  · rw [numbering_beyond within] at member
    rcases List.mem_append.mp member with contest | capacity
    · exact .inl (contests_report contest)
    · exact .inr ⟨_, List.mem_singleton.mp capacity⟩

theorem contests_eq_nil_iff {kind : Kind} {candidates : List TypeDecl} :
    contests kind candidates = [] ↔ ∀ d ∈ candidates, uncontested candidates d = true := by
  simp only [contests, List.filterMap_eq_nil_iff, contest_eq_none_iff]
  constructor
  · intro few d member
    apply uncontested_iff.mpr
    intro id asks
    have inside : d ∈ requesters candidates id := mem_requesters.mpr ⟨member, asks⟩
    have bound := few id (mem_requestedIds.mpr (List.ne_nil_of_mem inside))
    obtain ⟨owner, sole⟩ := List.length_eq_one_iff.mp
      (Nat.le_antisymm bound (List.length_pos_of_mem inside))
    have same : d = owner := by simpa [sole] using inside
    rw [sole, same]
  · intro free id _
    cases h : requesters candidates id with
    | nil => simp
    | cons d rest =>
      have inside : d ∈ requesters candidates id := by simp [h]
      obtain ⟨member, asks⟩ := mem_requesters.mp inside
      rw [← h, uncontested_iff.mp (free d member) id asks]
      simp

theorem assigned_length_le (kind : Kind) (candidates : List TypeDecl) :
    (assigned kind candidates).length ≤ candidates.length := by
  have owners := (assigned_owners_perm kind candidates).length_eq
  rw [List.length_map] at owners
  rw [owners]
  exact List.length_filter_le _ _

theorem assigned_all_iff {kind : Kind} {candidates : List TypeDecl} :
    (assigned kind candidates).length = candidates.length ↔ contests kind candidates = [] := by
  have owners := (assigned_owners_perm kind candidates).length_eq
  rw [List.length_map] at owners
  rw [owners, contests_eq_nil_iff, List.length_filter_eq_length_iff]

end EcsPlan
