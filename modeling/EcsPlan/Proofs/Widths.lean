import EcsPlan.Proofs.MaskBits
import EcsPlan.Proofs.Registers
import Mathlib.Data.List.Find
import Mathlib.Order.Bounds.Basic

/-!
How wide masks are. The ladder and the multiples of the wide step are one ascending set of
widths, and a width is the least of them with the room that is asked for. Arithmetic on
64-bit words gives the same width, and overflows only where the width itself is no word.
-/
namespace EcsPlan

def rungs : Set Nat := {32, 64, 128, 256, 512, 1024} ∪ {w | ∃ k, 4 < k ∧ w = 256 * k}

def wordOf? (n : Nat) : Option UInt64 := if n < UInt64.size then some (.ofNat n) else none

theorem wordOf?_toNat {n : Nat} :
    (wordOf? n).map (·.toNat) = if n < UInt64.size then some n else none := by
  unfold wordOf?
  split
  · rename_i small
    rw [Option.map_some, UInt64.toNat_ofNat_of_lt' small]
  · rfl

theorem max?_map_of_hom {α β : Type} [Max α] [Max β] {f : α → β}
    (hom : ∀ a b, f (max a b) = max (f a) (f b)) (l : List α) :
    (l.map f).max? = l.max?.map f := by
  cases l with
  | nil => rfl
  | cons a rest =>
    simp only [List.map_cons, List.max?, Option.map_some, List.foldl_map]
    exact congrArg some (List.foldl_hom f fun a b => (hom a b).symm)

theorem slots_max (a b : UInt32) : (max a b).toNat + 1 = max (a.toNat + 1) (b.toNat + 1) := by
  change (if a ≤ b then b else a).toNat + 1 = _
  split
  · rename_i below
    rw [UInt32.le_iff_toNat_le] at below
    omega
  · rename_i beyond
    rw [UInt32.le_iff_toNat_le] at beyond
    omega

namespace Mask.Width

/-- How often the wide step has to be taken to hold the slots. A step that is begun counts. -/
def wideSteps? (slots : UInt64) : Option UInt64 :=
  let whole := slots / .ofNat wideStep
  if slots % .ofNat wideStep = 0 then some whole else wordOf? (whole.toNat + 1)

/-- The least width with room for the slots in arithmetic on words, unless that overflows. -/
def bitsFor? (slots : UInt64) : Option UInt64 :=
  match (ladder.map UInt64.ofNat).find? (slots ≤ ·) with
  | some w => some w
  | none => (wideSteps? slots).bind fun steps => wordOf? (steps.toNat * wideStep)

def bitsForIds? (ids : List UInt32) : Option UInt64 :=
  match ids.max? with
  | some highest => (wordOf? (highest.toUInt64.toNat + 1)).bind bitsFor?
  | none => bitsFor? 0

theorem isWidth_iff {w : Nat} : IsWidth w ↔ w ∈ rungs := by
  have steps : 1024 < w ∧ wideStep ∣ w ↔ ∃ k, 4 < k ∧ w = 256 * k := by
    simp only [wideStep]
    constructor
    · intro wide
      obtain ⟨beyond, k, rfl⟩ := wide
      exact ⟨k, by omega, rfl⟩
    · intro wide
      obtain ⟨k, beyond, rfl⟩ := wide
      exact ⟨by omega, Nat.dvd_mul_right 256 k⟩
  simp [IsWidth, rungs, ladder, steps]

theorem bits_mem_rungs (w : Mask.Width) : w.bits ∈ rungs := isWidth_iff.mp w.isWidth

theorem holding_le_iff {n w : Nat} (rung : w ∈ rungs) : (holding n).bits ≤ w ↔ n ≤ w := by
  constructor
  · exact Nat.le_trans (le_bitsFor n)
  · exact bitsFor_least (isWidth_iff.mpr rung)

theorem holding_isLeast (n : Nat) : IsLeast {w ∈ rungs | n ≤ w} (holding n).bits := by
  constructor
  · exact ⟨bits_mem_rungs _, le_bitsFor n⟩
  · intro w wide
    exact (holding_le_iff wide.1).mpr wide.2

theorem holding_mono : Monotone fun n => (holding n).bits := by
  intro n m le
  exact (holding_le_iff (bits_mem_rungs _)).mpr (Nat.le_trans le (le_bitsFor m))

theorem holding_bits (w : Mask.Width) : holding w.bits = w := by
  have same : (holding w.bits).bits = w.bits := Nat.le_antisymm
    ((holding_le_iff (bits_mem_rungs w)).mpr (Nat.le_refl _)) (le_bitsFor w.bits)
  cases w
  simp_all [holding]

theorem ofIds_isLeast (ids : List UInt32) :
    IsLeast {w ∈ rungs | ∀ id ∈ ids, id.toNat < w} (ofIds ids).bits := by
  constructor
  · exact ⟨bits_mem_rungs _, fun id => ofIds_room⟩
  · intro w wide
    exact ofIds_least (w := ⟨w, isWidth_iff.mpr wide.1⟩) wide.2

theorem least_isLeast : IsLeast rungs least.bits := by
  have none : IsLeast rungs (ofIds []).bits := by simpa using ofIds_isLeast []
  exact none

section Words
variable (slots : UInt64)

theorem wideSteps?_toNat : (wideSteps? slots).map (·.toNat) =
    some ((slots.toNat + (wideStep - 1)) / wideStep) := by
  have word := slots.toNat_lt
  have noRest : slots % .ofNat wideStep = 0 ↔ slots.toNat % 256 = 0 := by
    rw [← UInt64.toNat_inj, UInt64.toNat_mod]
    rfl
  have whole : (slots / .ofNat wideStep).toNat = slots.toNat / 256 := UInt64.toNat_div ..
  unfold wideSteps?
  split
  · rename_i exact
    rw [noRest] at exact
    rw [Option.map_some, whole, wideStep]
    congr 1
    omega
  · rename_i begun
    rw [noRest] at begun
    have small : slots.toNat / 256 + 1 < UInt64.size := by
      simp only [UInt64.size]
      omega
    rw [wordOf?_toNat, whole, if_pos small, wideStep]
    congr 1
    omega

theorem ladder_toNat : (ladder.map UInt64.ofNat).find? (slots ≤ ·) =
    (ladder.find? (slots.toNat ≤ ·)).map UInt64.ofNat := by
  rw [List.find?_map]
  refine congrArg (Option.map UInt64.ofNat) (List.find?_congr fun w rung => ?_)
  have small : w < UInt64.size := (by decide : ∀ w ∈ ladder, w < UInt64.size) w rung
  simp only [Function.comp_apply, UInt64.le_ofNat_iff small]

theorem bitsFor?_toNat : (bitsFor? slots).map (·.toNat) =
    if slots.toNat + wideStep ≤ UInt64.size then some (bitsFor slots.toNat) else none := by
  unfold bitsFor? bitsFor
  rw [ladder_toNat]
  cases found : ladder.find? (slots.toNat ≤ ·) with
  | some w =>
    have small : w ≤ 1024 :=
      (by decide : ∀ w ∈ ladder, w ≤ 1024) w (List.mem_of_find?_eq_some found)
    have room : slots.toNat ≤ w := by simpa using List.find?_some found
    have fits : slots.toNat + wideStep ≤ UInt64.size := by
      simp only [wideStep, UInt64.size]
      omega
    have word : w < UInt64.size := by
      simp only [UInt64.size]
      omega
    simp only [Option.map_some, Option.getD_some, if_pos fits, UInt64.toNat_ofNat_of_lt' word]
  | none =>
    obtain ⟨steps, taken, count⟩ := Option.map_eq_some_iff.mp (wideSteps?_toNat slots)
    have bound : (slots.toNat + (wideStep - 1)) / wideStep * wideStep < UInt64.size ↔
        slots.toNat + wideStep ≤ UInt64.size := by
      simp only [wideStep, UInt64.size]
      omega
    simp only [Option.map_none, Option.getD_none, roundUp]
    rw [taken, Option.bind_some, wordOf?_toNat, count]
    simp only [bound]

example : bitsFor? 0xFFFFFFFFFFFFFF00 = some 0xFFFFFFFFFFFFFF00 ∧
    bitsFor? 0xFFFFFFFFFFFFFF01 = none := by
  decide

end Words

theorem bitsForIds?_toNat (ids : List UInt32) :
    (bitsForIds? ids).map (·.toNat) = some (ofIds ids).bits := by
  have width : (ofIds ids).bits = bitsFor ((ids.max?.map (·.toNat + 1)).getD 0) := by
    rw [ofIds, max?_map_of_hom slots_max]
    rfl
  rw [width]
  unfold bitsForIds?
  cases ids.max? with
  | none =>
    have fits : (0 : UInt64).toNat + wideStep ≤ UInt64.size := by decide
    exact (bitsFor?_toNat 0).trans (if_pos fits)
  | some highest =>
    have small := highest.toNat_lt
    have next : highest.toUInt64.toNat + 1 < UInt64.size := by
      simp only [UInt32.toNat_toUInt64, UInt64.size]
      omega
    obtain ⟨slots, formed, count⟩ := Option.map_eq_some_iff.mp
      (wordOf?_toNat.trans (if_pos next))
    have fits : slots.toNat + wideStep ≤ UInt64.size := by
      simp only [count, UInt32.toNat_toUInt64, wideStep, UInt64.size]
      omega
    change ((wordOf? (highest.toUInt64.toNat + 1)).bind bitsFor?).map (·.toNat) = _
    rw [formed, Option.bind_some, bitsFor?_toNat, if_pos fits, count]
    rfl

end Mask.Width

theorem registry_width_isLeast {limits : Limits} {declarations : List TypeDecl} {kind : Kind}
    {r : Registry} (accepted : (registry limits declarations kind).value? = some r) :
    IsLeast {w ∈ rungs | ∀ e ∈ r.entries, e.id.toNat < w} r.width.bits := by
  obtain ⟨_, rfl⟩ := registry_value accepted
  have least := Mask.Width.ofIds_isLeast
    ((assigned kind (candidatesOf limits kind declarations)).map (·.id))
  simpa only [Registry.ofEntries, List.forall_mem_map] using least

/-- A width is the least with the room that is asked for: for so many slots, for each of the
    IDs, and for each entry of an accepted registry. Arithmetic on words gives the same width
    for all slots but the last 255, and for all IDs. -/
theorem widths_are_least :
    (∀ n, IsLeast {w ∈ rungs | n ≤ w} (Mask.Width.holding n).bits) ∧
      (∀ n, ∀ w ∈ rungs, (Mask.Width.holding n).bits ≤ w ↔ n ≤ w) ∧
      (Monotone fun n => (Mask.Width.holding n).bits) ∧
      (∀ n, Mask.Width.holding (Mask.Width.holding n).bits = Mask.Width.holding n) ∧
      (∀ slots, (Mask.Width.bitsFor? slots).map (·.toNat) =
        if slots.toNat + wideStep ≤ UInt64.size then some (Mask.Width.holding slots.toNat).bits
        else none) ∧
      (∀ ids, IsLeast {w ∈ rungs | ∀ id ∈ ids, id.toNat < w} (Mask.Width.ofIds ids).bits ∧
        (Mask.Width.bitsForIds? ids).map (·.toNat) = some (Mask.Width.ofIds ids).bits) ∧
      Mask.Width.ofIds [] = .least ∧ IsLeast rungs Mask.Width.least.bits ∧
      ∀ limits declarations kind r, (registry limits declarations kind).value? = some r →
        IsLeast {w ∈ rungs | ∀ e ∈ r.entries, e.id.toNat < w} r.width.bits := by
  refine ⟨Mask.Width.holding_isLeast, fun n w => Mask.Width.holding_le_iff,
    Mask.Width.holding_mono, fun n => Mask.Width.holding_bits _, Mask.Width.bitsFor?_toNat,
    fun ids => ⟨Mask.Width.ofIds_isLeast ids, Mask.Width.bitsForIds?_toNat ids⟩, rfl,
    Mask.Width.least_isLeast, fun limits declarations kind r => registry_width_isLeast⟩

def sail : TypeDecl := { name := "Sail", kind := .component, manualId := some 1024 }

theorem sail_registry : (registry {} [sail] .component).value? =
    some ⟨.component, [⟨sail, 1024, .manual⟩], .holding 1025, true⟩ := by
  decide +kernel

theorem sail_width_least :
    (registry {} [sail] .component).value? =
        some ⟨.component, [⟨sail, 1024, .manual⟩], .holding 1025, true⟩ ∧
      IsLeast {w ∈ rungs | ∀ e ∈ [Entry.mk sail 1024 .manual], e.id.toNat < w} 1280 := by
  obtain ⟨_, _, _, _, _, _, _, _, registries⟩ := widths_are_least
  exact ⟨sail_registry, registries {} [sail] .component _ sail_registry⟩

end EcsPlan
