import EcsPlan.Query

namespace EcsPlan

theorem bitAt_nil (j : Nat) : bitAt [] j = false := by
  simp [bitAt]

theorem bitAt_cons_low {v : UInt64} {vs : List UInt64} {j : Nat} (low : j < wordBits) :
    bitAt (v :: vs) j = v.toBitVec.getLsbD j := by
  rw [bitAt, Nat.div_eq_of_lt low, Nat.mod_eq_of_lt low]
  rfl

theorem bitAt_cons_high (v : UInt64) (vs : List UInt64) (j : Nat) :
    bitAt (v :: vs) (j + wordBits) = bitAt vs j := by
  rw [bitAt, bitAt, Nat.add_div_right _ (by decide), Nat.add_mod_right]
  rfl

theorem forall_bit_iff {p : Nat → Prop} :
    (∀ j, p j) ↔ (∀ j, j < wordBits → p j) ∧ ∀ j, p (j + wordBits) := by
  constructor
  · intro all
    exact ⟨fun j _ => all j, fun j => all _⟩
  · intro parts j
    obtain ⟨low, high⟩ := parts
    by_cases inside : j < wordBits
    · exact low j inside
    · have back : j - wordBits + wordBits = j := by omega
      exact back ▸ high (j - wordBits)

theorem word_eq_zero_iff {v : UInt64} :
    v = 0 ↔ ∀ j, j < wordBits → v.toBitVec.getLsbD j = false := by
  rw [← UInt64.toBitVec_inj]
  constructor
  · intro eq j _
    simp [eq]
  · intro none
    apply BitVec.eq_of_getLsbD_eq
    intro j inside
    simp [none j inside]

theorem words_zero_iff {vs : List UInt64} :
    (vs.all (· = 0)) = true ↔ ∀ j, bitAt vs j = false := by
  induction vs with
  | nil => simp [bitAt_nil]
  | cons v vs ih =>
    rw [forall_bit_iff, List.all_cons, Bool.and_eq_true, ih, decide_eq_true_eq, word_eq_zero_iff]
    simp only [bitAt_cons_high]
    refine and_congr_left fun _ => forall₂_congr fun j low => ?_
    rw [bitAt_cons_low low]

theorem subsetWords_iff {vs ws : List UInt64} :
    Mask.subsetWords vs ws = true ↔ ∀ j, bitAt vs j = true → bitAt ws j = true := by
  induction vs generalizing ws with
  | nil => simp [Mask.subsetWords, bitAt_nil]
  | cons v vs ih =>
    cases ws with
    | nil =>
      rw [forall_bit_iff, Mask.subsetWords, Bool.and_eq_true, ih, decide_eq_true_eq,
        word_eq_zero_iff]
      simp only [bitAt_cons_high, bitAt_nil]
      refine and_congr_left fun _ => forall₂_congr fun j low => ?_
      rw [bitAt_cons_low low]
      simp
    | cons w ws =>
      rw [forall_bit_iff, Mask.subsetWords, Bool.and_eq_true, ih, decide_eq_true_eq,
        word_eq_zero_iff]
      simp only [bitAt_cons_high]
      refine and_congr_left fun _ => forall₂_congr fun j low => ?_
      rw [bitAt_cons_low low, bitAt_cons_low low]
      simp only [wordBits] at low
      simp [low]

theorem meetWords_iff {vs ws : List UInt64} :
    Mask.meetWords vs ws = false ↔ ∀ j, bitAt vs j = true → bitAt ws j = false := by
  induction vs generalizing ws with
  | nil => simp [Mask.meetWords, bitAt_nil]
  | cons v vs ih =>
    cases ws with
    | nil => simp [Mask.meetWords, bitAt_nil]
    | cons w ws =>
      rw [forall_bit_iff, Mask.meetWords, Bool.or_eq_false_iff, ih, decide_eq_false_iff_not,
        Decidable.not_not, word_eq_zero_iff]
      simp only [bitAt_cons_high]
      refine and_congr_left fun _ => forall₂_congr fun j low => ?_
      rw [bitAt_cons_low low, bitAt_cons_low low]
      simp

theorem words_ext {vs ws : List UInt64} (size : vs.length = ws.length)
    (same : ∀ j, bitAt vs j = bitAt ws j) : vs = ws := by
  induction vs generalizing ws with
  | nil => exact (List.length_eq_zero_iff.mp size.symm).symm
  | cons v vs ih =>
    cases ws with
    | nil => contradiction
    | cons w ws =>
      obtain ⟨low, high⟩ := forall_bit_iff.mp same
      have first : v = w := by
        apply UInt64.toBitVec_inj.mp
        apply BitVec.eq_of_getLsbD_eq
        intro j inside
        have bits := low j inside
        rwa [bitAt_cons_low inside, bitAt_cons_low inside] at bits
      have rest : vs = ws := by
        apply ih (Nat.succ.inj size)
        intro j
        have bits := high j
        rwa [bitAt_cons_high, bitAt_cons_high] at bits
      rw [first, rest]

namespace Mask

def bit (m : Mask) (j : Nat) : Bool := bitAt m.words j

theorem ext_bit {a b : Mask} (width : a.width = b.width) (same : ∀ j, a.bit j = b.bit j) :
    a = b := by
  have size : a.words.length = b.words.length := by
    rw [a.length_words, b.length_words, width]
  have words := words_ext size same
  cases a; cases b
  simp_all

theorem isEmpty_iff {m : Mask} : m.isEmpty = true ↔ ∀ j, m.bit j = false := words_zero_iff

theorem subset_iff {a b : Mask} :
    a.subset b = true ↔ ∀ j, a.bit j = true → b.bit j = true := subsetWords_iff

theorem not_intersects_iff {a b : Mask} :
    a.intersects b = false ↔ ∀ j, a.bit j = true → b.bit j = false := meetWords_iff

theorem empty_bit (width : Mask.Width) (j : Nat) : (empty width).bit j = false := by
  simp only [bit, empty, bitAt, List.getD_eq_getElem?_getD, List.getElem?_replicate]
  split <;> simp

theorem insert_width (m : Mask) (b : UInt32) : (m.insert b).width = m.width := by
  unfold insert insert?
  split <;> rfl

theorem insert_bit (m : Mask) (b : UInt32) (j : Nat) :
    (m.insert b).bit j = (m.bit j || decide (j = b.toNat ∧ j < m.width.bits)) := by
  unfold insert insert?
  split
  · rename_i inside
    have inRange : b.toNat / wordBits < m.words.length := m.length_words ▸ word_lt inside
    simp only [Option.getD_some, bit, bitAt_raiseBit j inRange]
    by_cases same : j = b.toNat <;> simp [same, inside]
  · rename_i outside
    have never : ¬ (j = b.toNat ∧ j < m.width.bits) := by
      intro found
      obtain ⟨rfl, inside⟩ := found
      exact outside inside
    simp [never]

theorem foldl_insert_bit (bits : List UInt32) (m : Mask) (j : Nat) :
    (bits.foldl insert m).bit j = true ↔
      m.bit j = true ∨ j < m.width.bits ∧ ∃ b ∈ bits, b.toNat = j := by
  induction bits generalizing m with
  | nil => simp
  | cons b rest ih =>
    rw [List.foldl_cons, ih, insert_bit, insert_width]
    simp only [Bool.or_eq_true, decide_eq_true_eq, List.mem_cons, exists_eq_or_imp]
    grind

theorem ofBits_width (width : Mask.Width) (bits : List UInt32) :
    (ofBits width bits).width = width := by
  have kept : ∀ (bits : List UInt32) (m : Mask), (bits.foldl insert m).width = m.width := by
    intro bits
    induction bits with
    | nil => exact fun _ => rfl
    | cons b rest ih => exact fun m => (ih (m.insert b)).trans (insert_width m b)
  exact kept bits (empty width)

theorem ofBits_bit (width : Mask.Width) (bits : List UInt32) (j : Nat) :
    (ofBits width bits).bit j = true ↔ j < width.bits ∧ ∃ b ∈ bits, b.toNat = j := by
  rw [ofBits, foldl_insert_bit, empty_bit]
  simp [empty]

/-- The mask has the bits of these IDs alone. -/
def HasBits (m : Mask) (ids : UInt32 → Prop) : Prop :=
  ∀ j, m.bit j = true ↔ ∃ id, ids id ∧ id.toNat = j

theorem ofBits_hasBits (width : Mask.Width) (bits : List UInt32) :
    (ofBits width bits).HasBits fun id => id ∈ bits ∧ id.toNat < width.bits := by
  intro j
  rw [ofBits_bit]
  constructor
  · intro set
    obtain ⟨inside, b, member, rfl⟩ := set
    exact ⟨b, ⟨member, inside⟩, rfl⟩
  · intro set
    obtain ⟨b, ⟨member, inside⟩, rfl⟩ := set
    exact ⟨inside, b, member, rfl⟩

theorem ofBits_hasBits_of_room {width : Mask.Width} {bits : List UInt32}
    (room : ∀ b ∈ bits, b.toNat < width.bits) : (ofBits width bits).HasBits (· ∈ bits) := by
  intro j
  rw [ofBits_hasBits]
  exact exists_congr fun b => and_congr_left fun _ => and_iff_left_of_imp (room b)

namespace HasBits
variable {m n : Mask} {s t : UInt32 → Prop} (left : m.HasBits s) (right : n.HasBits t)
include left

theorem bit_iff {id : UInt32} : m.bit id.toNat = true ↔ s id := by
  rw [left]
  constructor
  · intro set
    obtain ⟨i, held, same⟩ := set
    exact UInt32.toNat_inj.mp same ▸ held
  · intro held
    exact ⟨id, held, rfl⟩

theorem isEmpty_iff : m.isEmpty = true ↔ ∀ id, ¬ s id := by
  rw [Mask.isEmpty_iff]
  constructor
  · intro zero id held
    have set := left.bit_iff.mpr held
    rw [zero] at set
    contradiction
  · intro nothing j
    apply Bool.eq_false_iff.mpr
    intro set
    obtain ⟨id, held, _⟩ := (left j).mp set
    exact nothing id held

include right

theorem subset_iff : m.subset n = true ↔ ∀ id, s id → t id := by
  rw [Mask.subset_iff]
  constructor
  · intro bits id held
    exact right.bit_iff.mp (bits _ (left.bit_iff.mpr held))
  · intro sub j set
    obtain ⟨id, held, rfl⟩ := (left j).mp set
    exact right.bit_iff.mpr (sub id held)

theorem apart_iff : m.intersects n = false ↔ ∀ id, s id → ¬ t id := by
  rw [not_intersects_iff]
  constructor
  · intro bits id held other
    have clear := bits _ (left.bit_iff.mpr held)
    rw [right.bit_iff.mpr other] at clear
    contradiction
  · intro apart j set
    obtain ⟨id, held, rfl⟩ := (left j).mp set
    exact Bool.eq_false_iff.mpr fun both => apart id held (right.bit_iff.mp both)

theorem intersects_iff : m.intersects n = true ↔ ∃ id, s id ∧ t id := by
  rw [← Bool.not_eq_false, left.apart_iff right]
  simp

end HasBits

namespace Width

theorem le_bitsFor (slots : Nat) : slots ≤ bitsFor slots := by
  unfold bitsFor
  cases h : ladder.find? (slots ≤ ·) with
  | some w => simpa using List.find?_some h
  | none =>
    simp only [Option.getD_none, roundUp, wideStep]
    omega

theorem bitsFor_least {slots bits : Nat} (width : IsWidth bits) (room : slots ≤ bits) :
    bitsFor slots ≤ bits := by
  unfold bitsFor
  cases found : ladder.find? (slots ≤ ·) with
  | some w =>
    have small : w ≤ 1024 :=
      (by decide : ∀ w ∈ ladder, w ≤ 1024) w (List.mem_of_find?_eq_some found)
    obtain ⟨_, lower, upper, split, narrow⟩ := List.find?_eq_some_iff_append.mp found
    have ascending : ladder.Pairwise (· < ·) := by decide
    rcases width with rung | ⟨beyond, _⟩
    · rw [split] at rung ascending
      rcases List.mem_append.mp rung with below | same
      · have none := narrow bits below
        simp only [room] at none
        contradiction
      · rcases List.mem_cons.mp same with rfl | above
        · exact Nat.le_refl bits
        · have tail := (List.pairwise_append.mp ascending).2.1
          exact Nat.le_of_lt ((List.pairwise_cons.mp tail).1 bits above)
    · exact Nat.le_of_lt (Nat.lt_of_le_of_lt small beyond)
  | none =>
    rcases width with rung | ⟨_, steps, rfl⟩
    · exact False.elim (List.find?_eq_none.mp found bits rung (decide_eq_true room))
    · simp only [Option.getD_none, roundUp, wideStep] at room ⊢
      omega

theorem ofIds_room {ids : List UInt32} {id : UInt32} (member : id ∈ ids) :
    id.toNat < (ofIds ids).bits := by
  have listed : id.toNat + 1 ∈ ids.map (·.toNat + 1) := List.mem_map.mpr ⟨id, member, rfl⟩
  have highest : id.toNat + 1 ≤ (ids.map (·.toNat + 1)).max?.getD 0 :=
    List.le_max?_getD_of_mem listed
  exact Nat.lt_of_lt_of_le highest (le_bitsFor _)

theorem ofIds_least {ids : List UInt32} {w : Mask.Width}
    (room : ∀ id ∈ ids, id.toNat < w.bits) : (ofIds ids).bits ≤ w.bits := by
  apply bitsFor_least w.isWidth
  cases highest : (ids.map (·.toNat + 1)).max? with
  | none => exact Nat.zero_le _
  | some top =>
    refine (List.max?_le_iff highest).mpr fun slots listed => ?_
    obtain ⟨id, member, rfl⟩ := List.mem_map.mp listed
    exact room id member

theorem ofIds_mono {ids others : List UInt32} (sub : ids ⊆ others) :
    (ofIds ids).bits ≤ (ofIds others).bits :=
  ofIds_least fun _ member => ofIds_room (sub member)

theorem le_wider_left (v w : Mask.Width) : v.bits ≤ (v.wider w).bits := by
  unfold wider
  split <;> omega

theorem le_wider_right (v w : Mask.Width) : w.bits ≤ (v.wider w).bits := by
  unfold wider
  split <;> omega

theorem wider_eq_left {v w : Mask.Width} (narrow : w.bits ≤ v.bits) : v.wider w = v := by
  unfold wider
  split
  · have same : w.bits = v.bits := by omega
    cases v; cases w
    simp_all
  · rfl

end Width
end Mask

section Filters
variable {ids : Filter (List UInt32)} {carried : UInt32 → Prop} {v : Mask.Width}
  {archetype : Mask}

theorem masks_room (ids : Filter (List UInt32)) (v : Mask.Width) :
    ∀ id ∈ ids.all ++ ids.none ++ ids.any,
      id.toNat < (v.wider (.ofIds (ids.all ++ ids.none ++ ids.any))).bits := fun _ member =>
  Nat.lt_of_lt_of_le (Mask.Width.ofIds_room member) (Mask.Width.le_wider_right ..)

theorem masks_hasBits (ids : Filter (List UInt32)) (v : Mask.Width) :
    (ids.masks v).all.HasBits (· ∈ ids.all) ∧ (ids.masks v).none.HasBits (· ∈ ids.none) ∧
      (ids.masks v).any.HasBits (· ∈ ids.any) := by
  have room := masks_room ids v
  exact ⟨Mask.ofBits_hasBits_of_room fun id member => room id (by simp [member]),
    Mask.ofBits_hasBits_of_room fun id member => room id (by simp [member]),
    Mask.ofBits_hasBits_of_room fun id member => room id (by simp [member])⟩

/-- No ID is beyond the width that was asked for, so it is the width that is taken. -/
theorem masks_of_room (room : ∀ id ∈ ids.all ++ ids.none ++ ids.any, id.toNat < v.bits) :
    ids.masks v = ids.map (Mask.ofBits v) := by
  rw [Filter.masks, Mask.Width.wider_eq_left (Mask.Width.ofIds_least room)]

theorem masks_accepts_iff (v : Mask.Width) (holds : archetype.HasBits carried) :
    (ids.masks v).accepts archetype = true ↔
      (∀ id ∈ ids.all, carried id) ∧ (∀ id ∈ ids.none, ¬ carried id) ∧
        (ids.any = [] ∨ ∃ id ∈ ids.any, carried id) := by
  obtain ⟨all, none, any⟩ := masks_hasBits ids v
  simp only [Filter.accepts, Bool.and_eq_true, Bool.or_eq_true, Bool.not_eq_true',
    all.subset_iff holds, none.apart_iff holds, any.isEmpty_iff, any.intersects_iff holds,
    List.eq_nil_iff_forall_not_mem, and_assoc]

end Filters
end EcsPlan
