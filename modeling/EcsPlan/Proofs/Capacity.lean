import EcsPlan.Proofs.FreeSlots

namespace EcsPlan
variable {kind : Kind} {maxId : UInt32} {candidates : List TypeDecl}

def capacityReport (kind : Kind) (highest limit : UInt32) : Diagnostic where
  code := .capacityExceeded
  severity := .error
  message :=
    kind.text ++ " IDs exceed the maximum: highest assigned ID is " ++ toString highest ++ ", " ++
      ("maximum is " ++ toString limit ++ "; no " ++ kind.text ++ " IDs are generated")
  place := none

theorem granted_within_iff :
    (∀ slot ∈ (grantedEntries candidates).map (·.id.toNat), slot ≤ maxId.toNat) ↔
      ∀ id ∈ soleIds candidates, id ≤ maxId := by
  simp only [mem_grantedSlots, UInt32.le_iff_toNat_le]
  constructor
  · intro within id sole
    exact within _ ⟨id, sole, rfl⟩
  · intro within slot held
    obtain ⟨id, sole, rfl⟩ := held
    exact within id sole

theorem filled_within_iff :
    (∀ slot ∈ (filledSlots kind candidates).map Prod.snd, slot ≤ maxId.toNat) ↔
      (asksNone candidates).length ≤ Nat.count (FreeSlot candidates) (maxId.toNat + 1) := by
  have length : (unpinned kind candidates).length = (asksNone candidates).length :=
    (unpinned_lined kind candidates).perm.length_eq
  have rank : ∀ i, i < Nat.count (FreeSlot candidates) (maxId.toNat + 1) ↔
      Nat.nth (FreeSlot candidates) i < maxId.toNat + 1 := fun _ =>
    Nat.lt_nth_iff_count_lt (freeSlot_infinite candidates)
  rw [filledSlots_slots, length]
  constructor
  · intro within
    by_contra few
    have last := (rank _).mpr (Nat.lt_succ_of_le (within _ (List.mem_map_of_mem
      (List.mem_range.mpr (Nat.lt_of_not_le few)))))
    exact Nat.lt_irrefl _ last
  · intro enough slot ranked
    obtain ⟨i, inside, rfl⟩ := List.mem_map.mp ranked
    have lower := List.mem_range.mp inside
    exact Nat.le_of_lt_succ ((rank i).mp (by omega))

theorem withinLimit_iff_count : WithinLimit kind maxId candidates ↔
    (∀ id ∈ soleIds candidates, id ≤ maxId) ∧
      (asksNone candidates).length ≤ Nat.count (FreeSlot candidates) (maxId.toNat + 1) := by
  rw [← granted_within_iff, ← @filled_within_iff kind]
  exact List.forall_mem_append

theorem numbering_rejected_iff : (numbering kind maxId candidates).isRejected = true ↔
    ¬ WithinLimit kind maxId candidates := by
  by_cases within : WithinLimit kind maxId candidates
  · rw [Outcome.isRejected_iff, numbering_within within]
    simp [within]
  · simp [numbering_beyond within, within, Outcome.isRejected]

theorem count_free_add_card (within : ∀ id ∈ soleIds candidates, id ≤ maxId) :
    Nat.count (FreeSlot candidates) (maxId.toNat + 1) + (soleIds candidates).card =
      maxId.toNat + 1 := by
  have held : (Finset.range (maxId.toNat + 1)).filter (¬ FreeSlot candidates ·) =
      (soleIds candidates).image UInt32.toNat := by
    ext slot
    simp only [FreeSlot, Finset.mem_filter, Finset.mem_range, Finset.mem_image, not_forall,
      not_not, exists_prop, and_iff_right_iff_imp]
    intro taken
    obtain ⟨id, sole, rfl⟩ := taken
    exact Nat.lt_succ_of_le (UInt32.le_iff_toNat_le.mp (within id sole))
  have card : ((soleIds candidates).image UInt32.toNat).card = (soleIds candidates).card :=
    Finset.card_image_of_injective _ fun _ _ => UInt32.toNat_inj.mp
  rw [Nat.count_eq_card_filter_range, ← card, ← held, Finset.card_filter_add_card_filter_not,
    Finset.card_range]

section Registers
variable {limits : Limits} {declarations : List TypeDecl}

theorem candidate_asks_within {d : TypeDecl} {id : UInt32}
    (member : d ∈ candidatesOf limits kind declarations) (asks : d.manualId = some id) :
    id ≤ limits.maxId := by
  have sound := (List.mem_filter.mp (mem_candidatesOf.mp member).1).2
  exact (sound_iff.mp sound).2 id asks

theorem registry_rejected_iff_numbering :
    (registry limits declarations kind).isRejected = true ↔
      (numbering kind limits.maxId (candidatesOf limits kind declarations)).isRejected = true := by
  rw [Outcome.isRejected_iff, Outcome.isRejected_iff, registry_value?, Option.map_eq_none_iff]

/-- Screened candidates are too many exactly if all who hold an ID, by asking or by rank,
    outnumber the IDs. -/
theorem registry_rejected_iff_count : (registry limits declarations kind).isRejected = true ↔
    limits.maxId.toNat + 1 < (soleIds (candidatesOf limits kind declarations)).card +
      (asksNone (candidatesOf limits kind declarations)).length := by
  have within : ∀ id ∈ soleIds (candidatesOf limits kind declarations), id ≤ limits.maxId := by
    intro id sole
    obtain ⟨owner, sole⟩ := mem_soleIds.mp sole
    obtain ⟨_, member, asks⟩ := soleIds_owner.mpr sole
    exact candidate_asks_within member asks
  have whole := count_free_add_card within
  rw [registry_rejected_iff_numbering, numbering_rejected_iff, withinLimit_iff_count,
    and_iff_right within]
  omega

end Registers

/-- A numbering is rejected exactly if somebody alone asks for an ID beyond the limit, or more
    candidates ask for none than slots up to the limit are free. It then reports the contests
    and, last and without a place, the exhausted capacity. Of screened candidates it is enough
    to count. -/
theorem rejected_by_count (kind : Kind) (maxId : UInt32) (candidates : List TypeDecl)
    (limits : Limits) (declarations : List TypeDecl) :
    ((numbering kind maxId candidates).isRejected = true ↔
      (∃ id ∈ soleIds candidates, maxId < id) ∨
        Nat.count (FreeSlot candidates) (maxId.toNat + 1) < (asksNone candidates).length) ∧
    ((numbering kind maxId candidates).isRejected = true → ∃ reports highest,
      let last := capacityReport kind highest maxId
      (numbering kind maxId candidates).diagnostics = reports ++ [last] ∧
        ContestsReported kind candidates reports ∧ last.place = none ∧
        (numbering kind maxId candidates).diagnostics.filter (·.code = .capacityExceeded) =
          [last]) ∧
    ((registry limits declarations kind).isRejected = true ↔
      limits.maxId.toNat + 1 < (soleIds (candidatesOf limits kind declarations)).card +
        (asksNone (candidatesOf limits kind declarations)).length) := by
  refine ⟨?_, ?_, registry_rejected_iff_count⟩
  · rw [numbering_rejected_iff, withinLimit_iff_count, not_and_or]
    simp
  · intro rejected
    have run : numbering kind maxId candidates = .rejected (contests kind candidates ++
        [capacityReport kind (shownHighest kind candidates) maxId]) :=
      numbering_beyond (numbering_rejected_iff.mp rejected)
    have reported := contests_reported kind candidates
    refine ⟨contests kind candidates, shownHighest kind candidates, ?_⟩
    rw [run]
    refine ⟨rfl, reported, rfl, ?_⟩
    have others : (contests kind candidates).filter (·.code = .capacityExceeded) = [] := by
      apply List.filter_eq_nil_iff.mpr
      intro d member
      obtain ⟨_, _, _, rfl⟩ := contests_report member
      simp [Finding.diagnostic, Finding.code]
    simp [Outcome.diagnostics, others, capacityReport]

theorem breezy_rejected_by_count :
    (numbering .component 1 breezy).isRejected = true ∧
      (registry { maxId := 1 } breezy .component).isRejected = true ∧
      ∃ reports highest, (numbering .component 1 breezy).diagnostics =
        reports ++ [capacityReport .component highest 1] := by
  obtain ⟨counted, reported, registered⟩ :=
    rejected_by_count .component 1 breezy { maxId := 1 } breezy
  have rejected := counted.mpr (.inr (by decide))
  obtain ⟨reports, highest, run, _⟩ := reported rejected
  exact ⟨rejected, registered.mpr (by decide), reports, highest, run⟩

end EcsPlan
