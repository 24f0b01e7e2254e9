import EcsPlan.Mask.Width

/-!
Sets of IDs as bits of 64-bit words. Bit `i` of a mask is bit `i % 64` of word
`i / 64`. A mask has the words that its width needs and no bit beyond its width.
-/
namespace EcsPlan

def bitAt (words : List UInt64) (i : Nat) : Bool :=
  (words.getD (i / wordBits) 0).toBitVec.getLsbD (i % wordBits)

def wordBit (i : Nat) : UInt64 := 1 <<< UInt64.ofNat i

def raiseBit (words : List UInt64) (i : Nat) : List UInt64 :=
  words.modify (i / wordBits) (· ||| wordBit (i % wordBits))

theorem length_raiseBit (words : List UInt64) (i : Nat) :
    (raiseBit words i).length = words.length := by
  simp [raiseBit]

theorem getLsbD_wordBit {i j : Nat} (h : i < wordBits) :
    (wordBit i).toBitVec.getLsbD j = decide (j = i) := by
  simp only [wordBits] at h
  have small : UInt64.toBitVec (UInt64.ofNat i) % 64 = BitVec.ofNat 64 i := by
    apply BitVec.eq_of_toNat_eq
    simp
    omega
  have amount : i % 18446744073709551616 = i := by omega
  simp only [wordBit, UInt64.toBitVec_shiftLeft, small, BitVec.shiftLeft_eq', BitVec.toNat_ofNat,
    Nat.reducePow, amount, BitVec.getLsbD_shiftLeft, UInt64.toBitVec_one, BitVec.getLsbD_one]
  by_cases eq : j = i
  · subst eq
    simp [h]
  · by_cases lt : j < i <;> simp [eq, lt]
    omega

theorem bitAt_raiseBit {words : List UInt64} {i : Nat} (j : Nat)
    (h : i / wordBits < words.length) :
    bitAt (raiseBit words i) j = (bitAt words j || decide (j = i)) := by
  have split : j = i ↔ j / wordBits = i / wordBits ∧ j % wordBits = i % wordBits := by
    simp only [wordBits]
    omega
  have low : i % wordBits < wordBits := Nat.mod_lt _ (by simp [wordBits])
  unfold bitAt raiseBit
  by_cases eq : j / wordBits = i / wordBits
  · rw [List.getD_eq_getElem?_getD, List.getElem?_modify, eq,
      List.getElem?_eq_getElem h, List.getD_eq_getElem?_getD, List.getElem?_eq_getElem h]
    simp [getLsbD_wordBit low, split, eq]
  · rw [List.getD_eq_getElem?_getD, List.getElem?_modify]
    simp [split, eq, Ne.symm eq, List.getD_eq_getElem?_getD]

structure Mask where
  width : Mask.Width
  words : List UInt64
  length_words : words.length = width.wordCount
  bits_lt : ∀ i, bitAt words i = true → i < width.bits

namespace Mask

instance : DecidableEq Mask := fun a b =>
  decidable_of_iff (a.width = b.width ∧ a.words = b.words) (by cases a; cases b; simp)

instance : Repr Mask := ⟨fun m n => reprPrec (m.width, m.words) n⟩

def empty (width : Mask.Width) : Mask :=
  ⟨width, List.replicate width.wordCount 0, by simp, fun i h => by
    simp only [bitAt, List.getD_eq_getElem?_getD, List.getElem?_replicate] at h
    split at h <;> simp at h⟩

theorem word_lt {width : Mask.Width} {i : Nat} (h : i < width.bits) :
    i / wordBits < width.wordCount := by
  simp only [Mask.Width.wordCount, wordBits]
  omega

/-- The mask with the bit set, unless the bit is beyond the width. -/
def insert? (m : Mask) (bit : UInt32) : Option Mask :=
  if h : bit.toNat < m.width.bits then
    have inRange : bit.toNat / wordBits < m.words.length := m.length_words ▸ word_lt h
    some ⟨m.width, raiseBit m.words bit.toNat, by simp [length_raiseBit, m.length_words],
      fun i hi => by
        simp only [bitAt_raiseBit i inRange, Bool.or_eq_true, decide_eq_true_eq] at hi
        rcases hi with hi | rfl
        · exact m.bits_lt i hi
        · exact h⟩
  else none

def insert (m : Mask) (bit : UInt32) : Mask := (m.insert? bit).getD m

def ofBits (width : Mask.Width) (bits : List UInt32) : Mask := bits.foldl insert (empty width)

def contains (m : Mask) (bit : UInt32) : Bool :=
  decide (bit.toNat < m.width.bits) && bitAt m.words bit.toNat

def isEmpty (m : Mask) : Bool := m.words.all (· = 0)

def wordBitsSet (word : UInt64) : List Nat :=
  (List.range wordBits).filter (word.toBitVec.getLsbD ·)

def countWords : List UInt64 → Nat
  | [] => 0
  | word :: rest => (wordBitsSet word).length + countWords rest

def count (m : Mask) : Nat := countWords m.words

def bitsFrom (index : Nat) : List UInt64 → List UInt32
  | [] => []
  | word :: rest =>
    (wordBitsSet word).map (fun bit => .ofNat (index * wordBits + bit)) ++
      bitsFrom (index + 1) rest

def toList (m : Mask) : List UInt32 := bitsFrom 0 m.words

def subsetWords : List UInt64 → List UInt64 → Bool
  | [], _ => true
  | v :: vs, [] => v = 0 && subsetWords vs []
  | v :: vs, w :: ws => v &&& ~~~w = 0 && subsetWords vs ws

def meetWords : List UInt64 → List UInt64 → Bool
  | v :: vs, w :: ws => v &&& w ≠ 0 || meetWords vs ws
  | _, _ => false

/-- Of two masks the narrower counts as filled up with zeros. -/
def subset (a b : Mask) : Bool := subsetWords a.words b.words

def intersects (a b : Mask) : Bool := meetWords a.words b.words

end Mask
end EcsPlan
