import EcsPlan.Proofs.QueryMasks
import Mathlib.Algebra.Order.Floor.Div
import Mathlib.Data.Finset.Card

/-!
Masks as bounded sets of IDs. However a mask has come about, it answers every question as
the set of the IDs below its width that it was told to take in. Filters of masks ask what
the sets that they were made of ask, whatever the widths are on either side.
-/
namespace EcsPlan

/-- The IDs that a mask of the width takes in of those that it is told. -/
def kept (width : Mask.Width) (told : List UInt32) : Finset UInt32 :=
  (told.filter (·.toNat < width.bits)).toFinset

theorem mem_kept {width : Mask.Width} {told : List UInt32} {id : UInt32} :
    id ∈ kept width told ↔ id ∈ told ∧ id.toNat < width.bits := by
  simp [kept]

def setBits (words : List UInt64) : List Nat :=
  (List.range (words.length * wordBits)).filter (bitAt words ·)

theorem setBits_cons (word : UInt64) (rest : List UInt64) :
    setBits (word :: rest) =
      Mask.wordBitsSet word ++ (setBits rest).map (wordBits + ·) := by
  have low : (List.range wordBits).filter (bitAt (word :: rest) ·) = Mask.wordBitsSet word := by
    refine List.filter_congr fun j inside => ?_
    exact bitAt_cons_low (List.mem_range.mp inside)
  have high : (bitAt (word :: rest) ·) ∘ (wordBits + ·) = (bitAt rest ·) := by
    funext j
    rw [Function.comp_apply, Nat.add_comm, bitAt_cons_high]
  rw [setBits, List.length_cons, Nat.succ_mul, Nat.add_comm, List.range_add, List.filter_append,
    low, List.filter_map, high]
  rfl

theorem mem_setBits {words : List UInt64} {j : Nat} :
    j ∈ setBits words ↔ j < words.length * wordBits ∧ bitAt words j = true := by
  simp [setBits]

theorem countWords_eq (words : List UInt64) :
    Mask.countWords words = (setBits words).length := by
  induction words with
  | nil => rfl
  | cons word rest ih => simp [Mask.countWords, setBits_cons, ih]

theorem bitsFrom_toNat {words : List UInt64} {index : Nat}
    (small : ∀ j ∈ setBits words, index * wordBits + j < UInt32.size) :
    (Mask.bitsFrom index words).map (·.toNat) =
      (setBits words).map (index * wordBits + ·) := by
  induction words generalizing index with
  | nil => rfl
  | cons word rest ih =>
    simp only [setBits_cons, List.mem_append, List.mem_map] at small
    have first : ∀ j ∈ Mask.wordBitsSet word,
        (UInt32.ofNat (index * wordBits + j)).toNat = index * wordBits + j := by
      intro j member
      exact UInt32.toNat_ofNat_of_lt' (small j (.inl member))
    have next : ∀ j, (index + 1) * wordBits + j = index * wordBits + (wordBits + j) := by
      intro j
      rw [Nat.succ_mul, Nat.add_assoc]
    have later : (Mask.bitsFrom (index + 1) rest).map (·.toNat) =
        (setBits rest).map ((index + 1) * wordBits + ·) := by
      apply ih
      intro j member
      rw [next]
      exact small _ (.inr ⟨j, member, rfl⟩)
    simp only [Mask.bitsFrom, setBits_cons, List.map_append, List.map_map, later]
    congr 1
    · exact List.map_congr_left first
    · exact List.map_congr_left fun j _ => next j

theorem filter_range_of_le {p : Nat → Bool} {n m : Nat} (le : n ≤ m)
    (none : ∀ i, p i = true → i < n) : (List.range m).filter p = (List.range n).filter p := by
  obtain ⟨k, rfl⟩ := Nat.exists_eq_add_of_le le
  have beyond : ((List.range k).map (n + ·)).filter p = [] := by
    refine List.filter_eq_nil_iff.mpr fun i member set => ?_
    obtain ⟨j, _, rfl⟩ := List.mem_map.mp member
    exact absurd (none _ set) (by omega)
  rw [List.range_add, List.filter_append, beyond, List.append_nil]

namespace Mask
variable {m n : Mask} {v w : Mask.Width} {s t : Finset UInt32}

theorem contains_eq_bit (m : Mask) (b : UInt32) : m.contains b = m.bit b.toNat := by
  have inside := m.bits_lt b.toNat
  unfold contains bit
  cases set : bitAt m.words b.toNat <;> simp_all

theorem setBits_eq (m : Mask) : setBits m.words = (List.range m.width.bits).filter (m.bit ·) := by
  refine filter_range_of_le ?_ m.bits_lt
  rw [m.length_words]
  simp only [Mask.Width.wordCount, wordBits]
  omega

/-- Masks of the width as they come about, with all the IDs that they were told to take in. -/
inductive Built (width : Mask.Width) : List UInt32 → Mask → Prop where
  | empty : Built width [] (.empty width)
  | ofBits (told : List UInt32) : Built width told (.ofBits width told)
  | insert {told : List UInt32} {m : Mask} (before : Built width told m) (b : UInt32) :
      Built width (b :: told) (m.insert b)

/-- What a mask of width `w` answers as the set of IDs `s`. -/
structure Answers (m : Mask) (w : Mask.Width) (s : Finset UInt32) : Prop where
  width : m.width = w
  words : m.words.length = w.bits ⌈/⌉ 64
  inside : ∀ i word, m.words[i]? = some word → ∀ k < 64, word.toBitVec.getLsbD k = true →
    i * 64 + k < w.bits
  taken : ∀ b, (m.insert? b).isSome = true ↔ b.toNat < w.bits
  refused : ∀ b, m.insert? b = none → m.insert b = m
  contains : ∀ b, m.contains b = true ↔ b ∈ s
  members : ∀ b, b ∈ m.toList ↔ b ∈ s
  ascending : m.toList.Pairwise (· < ·)
  exact : m.toList.map (·.toNat) = (List.range w.bits).filter (bitAt m.words ·)
  count : m.count = s.card
  isEmpty : m.isEmpty = true ↔ s = ∅

theorem Holds.insert {ids : UInt32 → Prop} (holds : m.Holds w ids) (b : UInt32) :
    (m.insert b).Holds w fun id => ids id ∨ id = b ∧ b.toNat < w.bits where
  width := (insert_width m b).trans holds.width
  bits j := by
    rw [insert_bit, holds.width, Bool.or_eq_true, holds.bits, decide_eq_true_eq]
    constructor
    · rintro (⟨id, old, rfl⟩ | ⟨rfl, inside⟩)
      · exact ⟨id, .inl old, rfl⟩
      · exact ⟨b, .inr ⟨rfl, inside⟩, rfl⟩
    · rintro ⟨id, old | ⟨rfl, inside⟩, rfl⟩
      · exact .inl ⟨id, old, rfl⟩
      · exact .inr ⟨rfl, inside⟩

theorem Built.holds {told : List UInt32} (built : Built w told m) :
    m.Holds w (· ∈ kept w told) := by
  induction built with
  | empty =>
    refine ⟨rfl, fun j => ?_⟩
    simp [empty_bit, kept]
  | ofBits told =>
    refine ⟨ofBits_width w told, fun j => ?_⟩
    simp only [mem_kept]
    exact ofBits_hasBits w told j
  | insert before b ih =>
    have after := ih.insert b
    refine ⟨after.width, fun j => (after.bits j).trans (exists_congr fun id => ?_)⟩
    simp only [mem_kept, List.mem_cons]
    refine and_congr_left fun _ => ?_
    constructor
    · rintro (⟨old, inside⟩ | ⟨rfl, inside⟩)
      · exact ⟨.inr old, inside⟩
      · exact ⟨.inl rfl, inside⟩
    · rintro ⟨rfl | old, inside⟩
      · exact .inr ⟨rfl, inside⟩
      · exact .inl ⟨old, inside⟩

section Questions
variable (holds : m.Holds w (· ∈ s))
include holds

theorem Holds.toList_toNat :
    m.toList.map (·.toNat) = (List.range w.bits).filter (bitAt m.words ·) := by
  have small : ∀ j ∈ setBits m.words, 0 * wordBits + j < UInt32.size := by
    intro j member
    obtain ⟨id, _, rfl⟩ := (holds.bits j).mp (mem_setBits.mp member).2
    rw [Nat.zero_mul, Nat.zero_add]
    exact id.toNat_lt_size
  have listed := bitsFrom_toNat small
  simp only [Nat.zero_mul, Nat.zero_add, List.map_id'] at listed
  rw [toList, listed, setBits_eq, holds.width]
  rfl

theorem Holds.mem_toList_iff {b : UInt32} : b ∈ m.toList ↔ b ∈ s := by
  have apart : Function.Injective UInt32.toNat := fun _ _ => UInt32.toNat_inj.mp
  have inside := m.bits_lt b.toNat
  rw [holds.width] at inside
  rw [← HasBits.bit_iff holds.bits, ← List.mem_map_of_injective apart, holds.toList_toNat,
    List.mem_filter, List.mem_range]
  exact and_iff_right_of_imp inside

theorem Holds.toList_ascending : m.toList.Pairwise (· < ·) := by
  have ordered : (m.toList.map (·.toNat)).Pairwise (· < ·) := by
    rw [holds.toList_toNat]
    exact List.pairwise_lt_range.filter _
  exact (List.pairwise_map.mp ordered).imp UInt32.lt_iff_toNat_lt.mpr

theorem Holds.count_eq : m.count = s.card := by
  have nodup : m.toList.Nodup := by
    refine holds.toList_ascending.imp fun {a b} lt same => ?_
    rw [same] at lt
    exact UInt32.lt_irrefl b lt
  have listed : m.toList.toFinset = s := by
    ext b
    rw [List.mem_toFinset, holds.mem_toList_iff]
  calc
    m.count = (m.toList.map (·.toNat)).length := by
      rw [count, countWords_eq, setBits_eq, holds.toList_toNat, holds.width]
      rfl
    _ = m.toList.length := List.length_map _
    _ = s.card := by rw [← listed, List.toFinset_card_of_nodup nodup]

/-- A mask that holds a set answers as that set. -/
theorem Holds.answers : m.Answers w s where
  width := holds.width
  words := by
    rw [m.length_words, holds.width, Nat.ceilDiv_eq_add_pred_div]
    rfl
  inside i word stored k low set := by
    rw [← holds.width]
    apply m.bits_lt
    have index : (i * 64 + k) / wordBits = i ∧ (i * 64 + k) % wordBits = k := by
      simp only [wordBits]
      omega
    rw [bitAt, index.1, index.2, List.getD_eq_getElem?_getD, stored]
    exact set
  taken b := by
    rw [← holds.width, insert?]
    split <;> simp_all
  refused b none := by rw [Mask.insert, none, Option.getD_none]
  contains b := by rw [contains_eq_bit, HasBits.bit_iff holds.bits]
  members b := holds.mem_toList_iff
  ascending := holds.toList_ascending
  exact := holds.toList_toNat
  count := holds.count_eq
  isEmpty := by rw [HasBits.isEmpty_iff holds.bits, Finset.eq_empty_iff_forall_notMem]

end Questions

section Pairs
variable (left : m.Holds v (· ∈ s)) (right : n.Holds w (· ∈ t))
include left right

theorem Holds.eq_iff : m = n ↔ v = w ∧ s = t := by
  constructor
  · rintro rfl
    refine ⟨left.width.symm.trans right.width, Finset.ext fun b => ?_⟩
    exact (HasBits.bit_iff left.bits).symm.trans (HasBits.bit_iff right.bits)
  · rintro ⟨rfl, rfl⟩
    exact left.unique right

theorem Holds.subset_iff : m.subset n = true ↔ s ⊆ t :=
  HasBits.subset_iff left.bits right.bits

theorem Holds.intersects_iff : m.intersects n = true ↔ (s ∩ t).Nonempty := by
  rw [HasBits.intersects_iff left.bits right.bits]
  simp only [Finset.Nonempty, Finset.mem_inter]

end Pairs
end Mask

/-- A mask is the set of the IDs below its width that it was told to take in: that set is
    what it contains, lists and counts, and with its width all that tells it from others. -/
theorem masks_are_bounded_sets {v : Mask.Width} {told : List UInt32} {m : Mask}
    (built : Mask.Built v told m) :
    m.Answers v (kept v told) ∧
      ∀ {w : Mask.Width} {others : List UInt32} {n : Mask}, Mask.Built w others n →
        (m = n ↔ v = w ∧ kept v told = kept w others) ∧
          (m.subset n = true ↔ kept v told ⊆ kept w others) ∧
          (m.intersects n = true ↔ (kept v told ∩ kept w others).Nonempty) := by
  refine ⟨built.holds.answers, fun other => ?_⟩
  exact ⟨built.holds.eq_iff other.holds, built.holds.subset_iff other.holds,
    built.holds.intersects_iff other.holds⟩

def narrowMask : Mask := (Mask.ofBits .least [0, 31, 40]).insert 5

def broadMask : Mask := .ofBits (.holding 100) [0, 5, 31, 40]

theorem narrowMask_bounded_set : Mask.Built .least [5, 0, 31, 40] narrowMask ∧
    narrowMask.Answers .least {0, 5, 31} ∧ narrowMask.subset broadMask = true ∧
    broadMask.subset narrowMask = false := by
  have built : Mask.Built .least [5, 0, 31, 40] narrowMask := .insert (.ofBits _) 5
  have other : Mask.Built (.holding 100) [0, 5, 31, 40] broadMask := .ofBits _
  have taken : kept .least [5, 0, 31, 40] = {0, 5, 31} := by decide
  have all : kept (.holding 100) [0, 5, 31, 40] = {0, 5, 31, 40} := by decide
  obtain ⟨answers, pairs⟩ := masks_are_bounded_sets built
  have back := ((masks_are_bounded_sets other).2 built).2.1
  rw [taken] at answers
  refine ⟨built, answers, (pairs other).2.1.mpr ?_, Bool.eq_false_iff.mpr (back.not.mpr ?_)⟩
  · rw [taken, all]
    decide
  · rw [taken, all]
    decide

/-- What a filter of IDs asks of the set of IDs that an archetype carries. -/
def Filter.MetBy (ids : Filter (List UInt32)) (carried : Finset UInt32) : Prop :=
  ids.all.toFinset ⊆ carried ∧ Disjoint ids.none.toFinset carried ∧
    (ids.any.toFinset = ∅ ∨ (ids.any.toFinset ∩ carried).Nonempty)

section Filters
variable (ids : Filter (List UInt32)) (width : Mask.Width)

theorem masks_answer : ∃ v : Mask.Width, width.bits ≤ v.bits ∧
    (ids.masks width).all.Answers v ids.all.toFinset ∧
    (ids.masks width).none.Answers v ids.none.toFinset ∧
    (ids.masks width).any.Answers v ids.any.toFinset := by
  let v := width.wider (.ofIds (ids.all ++ ids.none ++ ids.any))
  have whole : ∀ {l : List UInt32}, l ⊆ ids.all ++ ids.none ++ ids.any →
      (Mask.ofBits v l).Answers v l.toFinset := by
    intro l part
    have same : kept v l = l.toFinset := by
      ext id
      rw [mem_kept, List.mem_toFinset]
      exact and_iff_left_of_imp fun member => masks_room ids width id (part member)
    exact same ▸ (Mask.Built.ofBits l).holds.answers
  refine ⟨v, Mask.Width.le_wider_left .., whole ?_, whole ?_, whole ?_⟩
  · exact fun id member => by simp [member]
  · exact fun id member => by simp [member]
  · exact fun id member => by simp [member]

theorem masks_accepts_metBy (w : Mask.Width) (carried : List UInt32) :
    (ids.masks width).accepts (.ofBits w carried) = true ↔ ids.MetBy (kept w carried) := by
  rw [masks_accepts_iff width (Mask.Built.ofBits carried).holds.bits, Filter.MetBy,
    Finset.disjoint_left, List.toFinset_eq_empty_iff]
  simp only [Finset.subset_iff, Finset.Nonempty, Finset.mem_inter, List.mem_toFinset]

end Filters

/-- A filter of masks asks of an archetype what its sets of IDs ask of the IDs that the
    archetype carries. None of its IDs is lost, and nothing else about the archetype counts,
    such as how wide its mask is. -/
theorem masks_ask_sets (ids : Filter (List UInt32)) (width : Mask.Width) :
    (∃ v : Mask.Width, width.bits ≤ v.bits ∧
      (ids.masks width).all.Answers v ids.all.toFinset ∧
      (ids.masks width).none.Answers v ids.none.toFinset ∧
      (ids.masks width).any.Answers v ids.any.toFinset) ∧
    (∀ w carried, (ids.masks width).accepts (.ofBits w carried) = true ↔
      ids.MetBy (kept w carried)) ∧
    ∀ v w carried others, kept v carried = kept w others →
      (ids.masks width).accepts (.ofBits v carried) =
        (ids.masks width).accepts (.ofBits w others) := by
  refine ⟨masks_answer ids width, masks_accepts_metBy ids width, ?_⟩
  intro v w carried others same
  rw [Bool.eq_iff_iff, masks_accepts_metBy, masks_accepts_metBy, same]

def farFilter : Filter (List UInt32) := ⟨[0, 40], [5], [9, 7]⟩

theorem farFilter_asks_sets : farFilter.MetBy (kept (.holding 41) [0, 7, 40]) ∧
    kept (.holding 41) [0, 7, 40] = kept (.holding 2000) [40, 0, 7] ∧
    (farFilter.masks .least).accepts (.ofBits (.holding 41) [0, 7, 40]) = true ∧
    (farFilter.masks .least).accepts (.ofBits (.holding 2000) [40, 0, 7]) = true := by
  obtain ⟨_, asks, same⟩ := masks_ask_sets farFilter .least
  have met : farFilter.MetBy (kept (.holding 41) [0, 7, 40]) :=
    ⟨by decide, by decide, .inr (by decide)⟩
  have carried : kept (.holding 41) [0, 7, 40] = kept (.holding 2000) [40, 0, 7] := by decide
  have accepts := (asks (.holding 41) [0, 7, 40]).mpr met
  exact ⟨met, carried, accepts, (same _ _ _ _ carried).symm.trans accepts⟩

end EcsPlan
