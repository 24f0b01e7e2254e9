import EcsPlan.Numbering
import Mathlib.Data.List.Perm.Subperm

namespace EcsPlan

def Reserved (next : Nat) (slots : List Nat) : Prop :=
  slots.Pairwise (· < ·) ∧ ∀ r ∈ slots, next ≤ r

theorem freeSlot_spec {reserved : List Nat} {next : Nat} (valid : Reserved next reserved) :
    next ≤ (freeSlot reserved next).1 ∧ (freeSlot reserved next).1 ∉ reserved ∧
      Reserved ((freeSlot reserved next).1 + 1) (freeSlot reserved next).2 ∧
      ∀ r ∈ reserved, (freeSlot reserved next).1 < r → r ∈ (freeSlot reserved next).2 := by
  induction reserved generalizing next with
  | nil => simp [freeSlot, Reserved]
  | cons r rest ih =>
    obtain ⟨ascending, lower⟩ := valid
    have above := (List.pairwise_cons.mp ascending).1
    have first := lower r (by simp)
    simp only [freeSlot]
    split
    · rename_i eq
      have later : Reserved (next + 1) rest :=
        ⟨ascending.of_cons, fun x hx => by have := above x hx; omega⟩
      obtain ⟨le, free, beyond, covers⟩ := ih later
      refine ⟨by omega, ?_, beyond, ?_⟩
      · simp only [List.mem_cons, not_or]
        exact ⟨by omega, free⟩
      · intro x hx later
        rcases List.mem_cons.mp hx with rfl | hx
        · omega
        · exact covers x hx later
    · rename_i ne
      refine ⟨by simp, ?_, ⟨ascending, ?_⟩, fun x hx _ => hx⟩
      · simp only [List.mem_cons, not_or]
        exact ⟨by omega, fun inside => by have := above next inside; omega⟩
      · intro x hx
        rcases List.mem_cons.mp hx with rfl | hx
        · simp only; omega
        · have := above x hx
          simp only; omega

@[simp] theorem fillSlots_owners (reserved : List Nat) (next : Nat) (ds : List TypeDecl) :
    (fillSlots reserved next ds).map Prod.fst = ds := by
  induction ds generalizing reserved next with
  | nil => rfl
  | cons d rest ih => simp [fillSlots, ih]

theorem fillSlots_lower {reserved : List Nat} {next : Nat} (valid : Reserved next reserved)
    (ds : List TypeDecl) : ∀ p ∈ fillSlots reserved next ds, next ≤ p.2 := by
  induction ds generalizing reserved next with
  | nil => simp [fillSlots]
  | cons d rest ih =>
    obtain ⟨le, _, beyond, _⟩ := freeSlot_spec valid
    intro p hp
    simp only [fillSlots, List.mem_cons] at hp
    rcases hp with rfl | hp
    · exact le
    · have := ih beyond p hp
      omega

theorem fillSlots_ascending {reserved : List Nat} {next : Nat} (valid : Reserved next reserved)
    (ds : List TypeDecl) :
    ((fillSlots reserved next ds).map Prod.snd).Pairwise (· < ·) := by
  induction ds generalizing reserved next with
  | nil => simp [fillSlots]
  | cons d rest ih =>
    obtain ⟨_, _, beyond, _⟩ := freeSlot_spec valid
    simp only [fillSlots, List.map_cons, List.pairwise_cons]
    refine ⟨?_, ih beyond⟩
    intro slot hs
    obtain ⟨p, hp, rfl⟩ := List.mem_map.mp hs
    exact fillSlots_lower beyond rest p hp

theorem fillSlots_free {reserved : List Nat} {next : Nat} (valid : Reserved next reserved)
    (ds : List TypeDecl) : ∀ p ∈ fillSlots reserved next ds, p.2 ∉ reserved := by
  induction ds generalizing reserved next with
  | nil => simp [fillSlots]
  | cons d rest ih =>
    obtain ⟨_, free, beyond, covers⟩ := freeSlot_spec valid
    intro p hp
    simp only [fillSlots, List.mem_cons] at hp
    rcases hp with rfl | hp
    · exact free
    · intro inside
      have later := fillSlots_lower beyond rest p hp
      exact ih beyond p hp (covers p.2 inside (by omega))

theorem freeSlot_least {reserved : List Nat} {next k : Nat} (lower : next ≤ k)
    (below : k < (freeSlot reserved next).1) : k ∈ reserved := by
  induction reserved generalizing next with
  | nil =>
    simp only [freeSlot] at below
    omega
  | cons r rest ih =>
    simp only [freeSlot] at below
    split at below
    · rename_i eq
      by_cases first : k = r
      · simp [first]
      · exact List.mem_cons_of_mem r (ih (by omega) below)
    · simp only at below
      omega

theorem freeSlot_beyond (reserved : List Nat) (next : Nat) :
    (freeSlot reserved next).2 ⊆ reserved := by
  induction reserved generalizing next with
  | nil => simp [freeSlot]
  | cons r rest ih =>
    simp only [freeSlot]
    split
    · exact fun x member => List.mem_cons_of_mem r (ih _ member)
    · exact fun x member => member

theorem fillSlots_dense {reserved : List Nat} {next k : Nat} {ds : List TypeDecl}
    {p : TypeDecl × Nat} (filled : p ∈ fillSlots reserved next ds) (lower : next ≤ k)
    (below : k < p.2) : k ∈ reserved ∨ k ∈ (fillSlots reserved next ds).map Prod.snd := by
  induction ds generalizing reserved next with
  | nil => simp [fillSlots] at filled
  | cons d rest ih =>
    simp only [fillSlots, List.mem_cons, List.map_cons] at filled ⊢
    by_cases early : k < (freeSlot reserved next).1
    · exact .inl (freeSlot_least lower early)
    · rcases filled with rfl | filled
      · exact False.elim (early below)
      by_cases first : k = (freeSlot reserved next).1
      · exact .inr (.inl first)
      · rcases ih filled (by omega) with inside | later
        · exact .inl (freeSlot_beyond reserved next inside)
        · exact .inr (.inr later)

/-- Ascending slots that pass over the reserved ones and over nothing else. -/
structure Fills (reserved slots : List Nat) : Prop where
  ascending : slots.Pairwise (· < ·)
  free : ∀ slot ∈ slots, slot ∉ reserved
  dense : ∀ slot ∈ slots, ∀ k < slot, k ∈ reserved ∨ k ∈ slots

theorem fillSlots_fills {reserved : List Nat} (valid : Reserved 0 reserved)
    (ds : List TypeDecl) : Fills reserved ((fillSlots reserved 0 ds).map Prod.snd) where
  ascending := fillSlots_ascending valid ds
  free slot member := by
    obtain ⟨p, filled, rfl⟩ := List.mem_map.mp member
    exact fillSlots_free valid ds p filled
  dense slot member k below := by
    obtain ⟨p, filled, rfl⟩ := List.mem_map.mp member
    exact fillSlots_dense filled (Nat.zero_le k) below

namespace Fills
variable {reserved slots others : List Nat}

theorem nested (left : Fills reserved slots) (right : Fills reserved others) :
    slots ⊆ others ∨ others ⊆ slots := by
  by_cases inside : slots ⊆ others
  · exact .inl inside
  · right
    obtain ⟨top, member, missing⟩ : ∃ top ∈ slots, top ∉ others := by
      simpa [List.subset_def] using inside
    intro slot other
    have below : slot < top := by
      rcases Nat.lt_trichotomy slot top with lt | eq | gt
      · exact lt
      · exact False.elim (missing (eq ▸ other))
      · rcases right.dense slot other top gt with held | found
        · exact False.elim (left.free top member held)
        · exact False.elim (missing found)
    rcases left.dense top member slot below with held | found
    · exact False.elim (right.free slot other held)
    · exact found

theorem nodup (fills : Fills reserved slots) : slots.Nodup := fills.ascending.imp Nat.ne_of_lt

theorem eq_of_subset (left : Fills reserved slots) (right : Fills reserved others)
    (length : slots.length = others.length) (inside : slots ⊆ others) : slots = others := by
  have part := left.nodup.subperm inside
  have perm := part.perm_of_length_le (Nat.le_of_eq length.symm)
  exact perm.eq_of_pairwise (fun a b _ _ ab ba => by omega) left.ascending right.ascending

theorem eq_of_length_eq (left : Fills reserved slots) (right : Fills reserved others)
    (length : slots.length = others.length) : slots = others := by
  rcases left.nested right with inside | inside
  · exact left.eq_of_subset right length inside
  · exact (right.eq_of_subset left length.symm inside).symm

theorem take (fills : Fills reserved slots) (n : Nat) : Fills reserved (slots.take n) where
  ascending := fills.ascending.sublist (List.take_sublist n slots)
  free slot member := fills.free slot (List.mem_of_mem_take member)
  dense slot member k below := by
    rcases fills.dense slot (List.mem_of_mem_take member) k below with held | found
    · exact .inl held
    · have split := fills.ascending
      rw [← List.take_append_drop n slots] at split found
      rcases List.mem_append.mp found with early | late
      · exact .inr early
      · have above := (List.pairwise_append.mp split).2.2 slot member k late
        omega

end Fills

theorem fillSlots_eq_zip {reserved slots : List Nat} {ds : List TypeDecl}
    (valid : Reserved 0 reserved) (fills : Fills reserved slots)
    (length : slots.length = ds.length) : fillSlots reserved 0 ds = ds.zip slots := by
  have owners := fillSlots_owners reserved 0 ds
  refine List.zip_of_prod owners ((fillSlots_fills valid ds).eq_of_length_eq fills ?_)
  rw [length, List.length_map, ← List.length_map Prod.fst, owners]

end EcsPlan
