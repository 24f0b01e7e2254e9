import EcsPlan.Proofs.Assignments
import Mathlib.Data.Nat.Nth

/-!
Numberings by rank. An ID that one candidate alone asks for is held by it. Of the candidates
that ask for none, the one at place `i` of the line holds the free slot of rank `i`. Every
numbering that is not rejected is the one so described.
-/
namespace EcsPlan

def askedIds (candidates : List TypeDecl) : List UInt32 := candidates.filterMap (·.manualId)

def soleIds (candidates : List TypeDecl) : Finset UInt32 :=
  {id ∈ (askedIds candidates).toFinset | (askedIds candidates).count id = 1}

def asksNone (candidates : List TypeDecl) : List TypeDecl :=
  candidates.filter (·.manualId.isNone)

/-- Whether no candidate holds the slot by being the only one to ask for it. -/
def FreeSlot (candidates : List TypeDecl) (slot : Nat) : Prop :=
  ∀ id ∈ soleIds candidates, id.toNat ≠ slot

instance (candidates : List TypeDecl) : DecidablePred (FreeSlot candidates) :=
  fun slot => Finset.decidableDforallFinset (p := fun (id : UInt32) _ => id.toNat ≠ slot)

/-- Among components wide alignment comes first; what that leaves open the names decide. -/
def Kind.Ranks (kind : Kind) (a b : TypeDecl) : Prop :=
  (kind = .component → b.alignment ≤ a.alignment) ∧
    ((kind = .component → a.alignment = b.alignment) → a.name ≤ b.name)

def Kind.Ties (kind : Kind) (a b : TypeDecl) : Prop :=
  (kind = .component → a.alignment = b.alignment) ∧ a.name = b.name

instance (kind : Kind) (a b : TypeDecl) : Decidable (kind.Ties a b) :=
  inferInstanceAs (Decidable (_ ∧ _))

/-- Those that have arrived, in line. Who ties stands as it has arrived. -/
structure Lined (kind : Kind) (arrived line : List TypeDecl) : Prop where
  perm : line.Perm arrived
  ranked : line.Pairwise kind.Ranks
  stable : ∀ d, line.filter (kind.Ties d ·) = arrived.filter (kind.Ties d ·)

/-- What is held by asking and what is held by rank, and nothing else. -/
structure HeldByRank (candidates line : List TypeDecl) (entries : List Entry) : Prop where
  ascending : entries.Pairwise (·.id < ·.id)
  manual : ∀ owner id, ⟨owner, id, .manual⟩ ∈ entries ↔
    id ∈ soleIds candidates ∧ owner ∈ candidates ∧ owner.manualId = some id
  automatic : (ofSource .auto entries).map (fun e => (e.owner, e.id.toNat)) =
    line.zipIdx.map fun (d, i) => (d, Nat.nth (FreeSlot candidates) i)

def contestants (candidates : List TypeDecl) (id : UInt32) : List TypeDecl :=
  candidates.filter (·.manualId = some id)

/-- The report on a contested ID names all who ask for it, sorted, and stands at the first of them
    that has a place. -/
structure ReportsContest (kind : Kind) (candidates : List TypeDecl) (id : UInt32)
    (report : Diagnostic) : Prop where
  code : report.code = .duplicateId
  severity : report.severity = .error
  message : ∃ names : List String, names.Perm ((contestants candidates id).map (·.name)) ∧
    names.Pairwise (· ≤ ·) ∧
    report.message = "manual " ++ kind.text ++ " ID " ++ toString id ++ " is requested by " ++
      ", ".intercalate names ++ "; none of them receive an ID"
  place : FirstPlaced (contestants candidates id) report.place

/-- One report for each ID that several ask for, in ascending order of the IDs. -/
def ContestsReported (kind : Kind) (candidates : List TypeDecl)
    (reports : List Diagnostic) : Prop :=
  ∃ shared : List UInt32, shared.Pairwise (· < ·) ∧
    (∀ id, id ∈ shared ↔ 2 ≤ (askedIds candidates).count id) ∧
    shared.Forall₂ (ReportsContest kind candidates) reports

theorem askedIds_count (candidates : List TypeDecl) (id : UInt32) :
    (askedIds candidates).count id = (requesters candidates id).length := by
  unfold askedIds requesters
  induction candidates with
  | nil => rfl
  | cons d rest ih =>
    cases asks : d.manualId with
    | none => simp [asks, ih]
    | some other => by_cases same : other = id <;> simp [asks, same, ih]

theorem mem_soleIds {candidates : List TypeDecl} {id : UInt32} :
    id ∈ soleIds candidates ↔ ∃ owner, requesters candidates id = [owner] := by
  rw [soleIds, Finset.mem_filter, List.mem_toFinset, ← List.length_eq_one_iff,
    ← askedIds_count]
  constructor
  · intro sole
    exact sole.2
  · intro once
    refine ⟨List.count_pos_iff.mp ?_, once⟩
    omega

theorem soleIds_owner {candidates : List TypeDecl} {owner : TypeDecl} {id : UInt32} :
    id ∈ soleIds candidates ∧ owner ∈ candidates ∧ owner.manualId = some id ↔
      requesters candidates id = [owner] := by
  rw [← mem_requesters, mem_soleIds]
  constructor
  · rintro ⟨⟨other, sole⟩, asks⟩
    rw [sole] at asks ⊢
    rw [List.mem_singleton.mp asks]
  · intro sole
    exact ⟨⟨owner, sole⟩, by simp [sole]⟩

theorem mem_grantedSlots {candidates : List TypeDecl} {slot : Nat} :
    slot ∈ (grantedEntries candidates).map (·.id.toNat) ↔
      ∃ id ∈ soleIds candidates, id.toNat = slot := by
  rw [List.mem_map]
  constructor
  · intro held
    obtain ⟨e, granted, same⟩ := held
    exact ⟨e.id, mem_soleIds.mpr ⟨e.owner, (mem_grantedEntries.mp granted).2⟩, same⟩
  · intro held
    obtain ⟨id, sole, same⟩ := held
    obtain ⟨owner, sole⟩ := mem_soleIds.mp sole
    exact ⟨⟨owner, id, .manual⟩, mem_grantedEntries.mpr ⟨rfl, sole⟩, same⟩

theorem freeSlot_iff {candidates : List TypeDecl} {slot : Nat} :
    FreeSlot candidates slot ↔ slot ∉ (grantedEntries candidates).map (·.id.toNat) := by
  rw [mem_grantedSlots]
  simp [FreeSlot]

theorem freeSlot_infinite (candidates : List TypeDecl) :
    {slot | FreeSlot candidates slot}.Infinite := by
  apply Set.infinite_of_forall_exists_gt
  intro slot
  refine ⟨slot + UInt32.size, fun id _ same => ?_, ?_⟩
  · have bound := id.toNat_lt_size
    omega
  · simp [UInt32.size]

/-- Slots that pass over the reserved ones alone are the first free ones. -/
theorem Fills.eq_nth {reserved slots : List Nat} {free : Nat → Prop}
    (fills : Fills reserved slots) (infinite : {slot | free slot}.Infinite)
    (spared : ∀ slot, free slot ↔ slot ∉ reserved) :
    slots = (List.range slots.length).map (Nat.nth free) := by
  refine fills.eq_of_length_eq ⟨?_, ?_, ?_⟩ (by simp)
  · apply List.pairwise_map.mpr
    exact List.pairwise_lt_range.imp fun lt => Nat.nth_strictMono infinite lt
  · intro slot ranked
    obtain ⟨i, _, rfl⟩ := List.mem_map.mp ranked
    exact (spared _).mp (Nat.nth_mem_of_infinite infinite i)
  · intro slot ranked k below
    obtain ⟨i, inside, rfl⟩ := List.mem_map.mp ranked
    by_cases held : k ∈ reserved
    · exact .inl held
    · right
      -- the rank of `k` is the number of free slots below it
      classical
      have rank := Nat.nth_count ((spared k).mpr held)
      have lower : Nat.count free k < i := by
        rw [← rank] at below
        exact (Nat.nth_lt_nth infinite).mp below
      refine List.mem_map.mpr ⟨Nat.count free k, List.mem_range.mpr ?_, rank⟩
      exact Nat.lt_trans lower (List.mem_range.mp inside)

section Line
variable (kind : Kind) (candidates : List TypeDecl)

theorem filledSlots_slots : (filledSlots kind candidates).map Prod.snd =
    (List.range (unpinned kind candidates).length).map (Nat.nth (FreeSlot candidates)) := by
  have fills := fillSlots_fills (granted_reserved candidates) (unpinned kind candidates)
  have ranked := fills.eq_nth (freeSlot_infinite candidates) fun _ => freeSlot_iff
  have length := congrArg List.length (fillSlots_owners
    ((grantedEntries candidates).map (·.id.toNat)) 0 (unpinned kind candidates))
  rw [List.length_map] at length ranked
  rw [← length]
  exact ranked

theorem filledSlots_ranked :
    filledSlots kind candidates = (unpinned kind candidates).zipIdx.map fun (d, i) =>
      (d, Nat.nth (FreeSlot candidates) i) := by
  have owners : (filledSlots kind candidates).map Prod.fst = unpinned kind candidates :=
    fillSlots_owners _ _ _
  rw [List.zip_of_prod owners (filledSlots_slots kind candidates), List.zip_map_right,
    List.zipIdx_eq_zip_range', List.range_eq_range']
  rfl

end Line

theorem name_isLE_iff {a b : String} : (compare a b).isLE = true ↔ a ≤ b := by
  have less : compare b a = .lt ↔ b < a := compareOfLessAndEq_eq_lt
  rw [Ordering.isLE_iff_ne_gt, Std.OrientedCmp.gt_iff_lt, less, ← String.not_le, not_not]

theorem isLE_order_iff {kind : Kind} {a b : TypeDecl} :
    (kind.order a b).isLE = true ↔ kind.Ranks a b := by
  unfold Kind.Ranks
  cases kind with
  | component =>
    have wide : compare b.alignment a.alignment = .lt ↔ b.alignment < a.alignment :=
      Std.compare_eq_lt
    have even : compare b.alignment a.alignment = .eq ↔ b.alignment = a.alignment :=
      Std.LawfulEqCmp.compare_eq_iff_eq
    simp only [Kind.order, Ordering.isLE_then_iff_or, wide, even, name_isLE_iff, true_implies]
    rw [UInt32.le_iff_lt_or_eq]
    grind
  | tag => simp [Kind.order, name_isLE_iff]
  | queryable => simp [Kind.order, name_isLE_iff]
  | system => simp [Kind.order, name_isLE_iff]

theorem order_eq_iff {kind : Kind} {a b : TypeDecl} :
    kind.order a b = .eq ↔ kind.Ties a b := by
  unfold Kind.Ties
  have even : compare b.alignment a.alignment = .eq ↔ b.alignment = a.alignment :=
    Std.LawfulEqCmp.compare_eq_iff_eq
  have names : compare a.name b.name = .eq ↔ a.name = b.name :=
    Std.LawfulEqCmp.compare_eq_iff_eq
  cases kind with
  | component =>
    simp only [Kind.order, Ordering.then_eq_eq, even, names, true_implies]
    rw [eq_comm]
  | tag => simp [Kind.order, names]
  | queryable => simp [Kind.order, names]
  | system => simp [Kind.order, names]

namespace Lined
variable {kind : Kind} {arrived line other : List TypeDecl}

theorem ties_eq (kind : Kind) (d : TypeDecl) (l : List TypeDecl) :
    l.filter (kind.Ties d ·) = l.filter (kind.order d · = .eq) :=
  List.filter_congr fun _ _ => decide_eq_decide.mpr order_eq_iff.symm

theorem unique (left : Lined kind arrived line) (right : Lined kind arrived other) :
    line = other := by
  refine eq_of_filter_eq kind.order (left.ranked.imp isLE_order_iff.mpr)
    (right.ranked.imp isLE_order_iff.mpr) fun d => ?_
  rw [← ties_eq, ← ties_eq, left.stable, right.stable]

end Lined

theorem unpinned_lined (kind : Kind) (candidates : List TypeDecl) :
    Lined kind (asksNone candidates) (unpinned kind candidates) where
  perm := List.mergeSort_perm _ _
  ranked := (mergeSort_ascending kind.order (asksNone candidates)).imp isLE_order_iff.mp
  stable d := by
    rw [Lined.ties_eq, Lined.ties_eq]
    exact mergeSort_filter_eq kind.order d (asksNone candidates)

theorem assigned_held {kind : Kind} {maxId : UInt32} {candidates : List TypeDecl}
    (within : WithinLimit kind maxId candidates) :
    HeldByRank candidates (unpinned kind candidates) (assigned kind candidates) where
  ascending := assigned_ascending within
  manual owner id := by
    rw [mem_assigned, soleIds_owner]
    constructor
    · rintro (granted | automatic)
      · exact (mem_grantedEntries.mp granted).2
      · have source := automatic_source automatic
        contradiction
    · intro sole
      exact .inl (mem_grantedEntries.mpr ⟨rfl, sole⟩)
  automatic := by
    rw [assigned_automatic within, ← filledSlots_ranked, automaticEntries, List.map_map]
    conv_rhs => rw [← List.map_id (filledSlots kind candidates)]
    apply List.map_congr_left
    intro p filled
    have bound := (slot_lt_size within filled).2
    simp [UInt32.toNat_ofNat_of_lt' bound]

namespace HeldByRank
variable {candidates line : List TypeDecl} {entries others : List Entry}

theorem automatic_sub (left : HeldByRank candidates line entries)
    (right : HeldByRank candidates line others) :
    ofSource .auto entries ⊆ ofSource .auto others := by
  intro e member
  have image := List.mem_map_of_mem (f := fun e => (e.owner, e.id.toNat)) member
  rw [left.automatic, ← right.automatic] at image
  obtain ⟨f, kept, same⟩ := List.mem_map.mp image
  obtain ⟨owner, slot⟩ := Prod.mk.inj same
  have one : f = e := by
    have sources := (mem_ofSource.mp kept).2.trans (mem_ofSource.mp member).2.symm
    have ids := UInt32.toNat_inj.mp slot
    cases e; cases f
    simp_all
  exact one ▸ kept

theorem unique (left : HeldByRank candidates line entries)
    (right : HeldByRank candidates line others) : entries = others := by
  refine eq_of_ascending left.ascending right.ascending fun e => ?_
  cases source : e.source with
  | manual =>
    have form : e = ⟨e.owner, e.id, .manual⟩ := by rw [← source]
    rw [form, left.manual, right.manual]
  | auto =>
    have kept : ∀ l : List Entry, e ∈ l ↔ e ∈ ofSource .auto l := fun l => by
      rw [mem_ofSource, and_iff_left source]
    rw [kept entries, kept others]
    exact ⟨fun member => left.automatic_sub right member,
      fun member => right.automatic_sub left member⟩

end HeldByRank

theorem contest_report {kind : Kind} {candidates : List TypeDecl} {id : UInt32}
    {report : Diagnostic} (found : contest kind candidates id = some report) :
    ReportsContest kind candidates id report := by
  unfold contest at found
  split at found
  · contradiction
  · contradiction
  · obtain rfl := Option.some.inj found
    have sorted := (mergeSort_ascending compare ((requesters candidates id).map (·.name))).imp
      name_isLE_iff.mp
    exact ⟨rfl, rfl, ⟨_, List.mergeSort_perm _ _, sorted, rfl⟩, firstPlace_placed _⟩

theorem contests_reported (kind : Kind) (candidates : List TypeDecl) :
    ContestsReported kind candidates (contests kind candidates) := by
  refine ⟨(requestedIds candidates).toList.filter fun id => 2 ≤ (askedIds candidates).count id,
    ?_, ?_, ?_⟩
  · exact ((requestedIds candidates).ascending.imp Std.compare_eq_lt.mp).filter _
  · intro id
    rw [List.mem_filter, mem_requestedIds, decide_eq_true_eq, askedIds_count, and_iff_right_iff_imp]
    intro several
    exact List.ne_nil_of_length_pos (by omega)
  · unfold contests
    induction (requestedIds candidates).toList with
    | nil => exact .nil
    | cons id rest ih =>
      cases found : contest kind candidates id with
      | none =>
        have few := contest_eq_none_iff.mp found
        rw [← askedIds_count] at few
        rw [List.filter_cons_of_neg (by simpa using few), List.filterMap_cons_none found]
        exact ih
      | some report =>
        have several : 2 ≤ (askedIds candidates).count id := by
          rw [askedIds_count]
          by_contra few
          rw [contest_eq_none_iff.mpr (by omega)] at found
          contradiction
        rw [List.filter_cons_of_pos (by simp only [several, decide_true]),
          List.filterMap_cons_some found]
        exact .cons (contest_report found) ih

/-- A numbering that is not rejected hands out what is held by rank and nothing else, and
    reports the contests and nothing else. No contestant holds anything. -/
theorem numbering_by_rank {kind : Kind} {maxId : UInt32} {candidates : List TypeDecl}
    (accepted : (numbering kind maxId candidates).isRejected = false) :
    ∃ line entries reports, numbering kind maxId candidates = .usable entries reports ∧
      Lined kind (asksNone candidates) line ∧ HeldByRank candidates line entries ∧
      ContestsReported kind candidates reports ∧
      (∀ e ∈ entries, ∀ id, 2 ≤ (askedIds candidates).count id → e.owner.manualId ≠ some id) ∧
      ∀ line' entries', Lined kind (asksNone candidates) line' →
        HeldByRank candidates line' entries' → entries' = entries := by
  have within : WithinLimit kind maxId candidates := by
    by_contra beyond
    rw [numbering_beyond beyond] at accepted
    contradiction
  have lined := unpinned_lined kind candidates
  have held := assigned_held within
  refine ⟨unpinned kind candidates, assigned kind candidates, contests kind candidates,
    numbering_within within, lined, held, contests_reported kind candidates, ?_, ?_⟩
  · intro e member id several asks
    have free := (mem_owners.mp ⟨e, member, rfl⟩).2
    rw [askedIds_count, uncontested_iff.mp free id asks] at several
    simp at several
  · intro line' entries' others again
    rw [others.unique lined] at again
    exact again.unique held

def vane : TypeDecl := { name := "Vane", kind := .component, manualId := some 1 }

def breezy : List TypeDecl := [drag, kite, vane, lift, mass]

def breezyEntries : List Entry := [⟨mass, 0, .auto⟩, ⟨vane, 1, .manual⟩, ⟨kite, 2, .auto⟩]

theorem breezy_assigns : Assigns .component breezy breezyEntries := by decide

theorem breezy_contests {reports : List Diagnostic}
    (reported : ContestsReported .component breezy reports) :
    reports = [⟨.duplicateId, .error, "manual component ID 0 is requested by " ++
      "Drag, Lift; none of them receive an ID", none⟩] := by
  obtain ⟨shared, ascending, exact, each⟩ := reported
  have asked : askedIds breezy = [0, 1, 0] := by decide
  have one : shared = [0] := by
    refine ascending.eq_of_mem_iff (List.pairwise_singleton _ _) fun id => ?_
    rw [exact, asked, List.mem_singleton]
    grind
  subst one
  obtain ⟨report, _, contest, rest, rfl⟩ := List.forall₂_cons_left_iff.mp each
  obtain rfl := List.forall₂_nil_left_iff.mp rest
  obtain ⟨code, severity, ⟨names, perm, sorted, message⟩, place⟩ := contest
  have named : names = ["Drag", "Lift"] :=
    perm.eq_of_pairwise (fun _ _ _ _ => String.le_antisymm) sorted (by decide)
  rw [named] at message
  have unplaced : report.place = none := place.eq_firstPlace
  obtain ⟨_, _, _, _⟩ := report
  subst code severity message unplaced
  rfl

/-- `Drag` and `Lift` contest the slot 0, which stays free and goes to the first in line. -/
theorem breezy_numbering_by_rank :
    (numbering .component 4095 breezy).isRejected = false ∧
      Lined .component (asksNone breezy) [mass, kite] ∧
      HeldByRank breezy [mass, kite] breezyEntries ∧
      numbering .component 4095 breezy = .usable breezyEntries
        [⟨.duplicateId, .error, "manual component ID 0 is requested by " ++
          "Drag, Lift; none of them receive an ID", none⟩] := by
  have names : (breezy.map (·.name)).Nodup := by decide
  have below : ∀ e ∈ breezyEntries, e.id ≤ 4095 := by decide
  obtain ⟨within, numbered⟩ := breezy_assigns.determines names below
  have line : unpinned .component breezy = [mass, kite] := breezy_assigns.unpinned_eq names
  have lined := unpinned_lined .component breezy
  have held := assigned_held within
  rw [line] at lined held
  rw [numbered] at held
  have accepted : (numbering .component 4095 breezy).isRejected = false := by
    rw [Outcome.not_isRejected_iff, numbering_within within, Outcome.usable_value?]
    exact ⟨_, rfl⟩
  obtain ⟨_, _, _, run, _, _, reported, _, sole⟩ := numbering_by_rank accepted
  obtain rfl := sole _ _ lined held
  exact ⟨accepted, lined, held, breezy_contests reported ▸ run⟩

end EcsPlan
