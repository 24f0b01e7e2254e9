namespace EcsPlan

def ladder : List Nat := [32, 64, 128, 256, 512, 1024]

def wideStep : Nat := 256

def wordBits : Nat := 64

def IsWidth (bits : Nat) : Prop := bits ∈ ladder ∨ 1024 < bits ∧ wideStep ∣ bits

structure Mask.Width where
  bits : Nat
  isWidth : IsWidth bits

namespace Mask.Width

instance : DecidableEq Mask.Width := fun v w =>
  decidable_of_iff (v.bits = w.bits) (by cases v; cases w; simp)

instance : Repr Mask.Width := ⟨fun w n => reprPrec w.bits n⟩

def least : Mask.Width := ⟨32, by simp [IsWidth, ladder]⟩

def roundUp (slots : Nat) : Nat := (slots + (wideStep - 1)) / wideStep * wideStep

def bitsFor (slots : Nat) : Nat := (ladder.find? (slots ≤ ·)).getD (roundUp slots)

theorem isWidth_bitsFor (slots : Nat) : IsWidth (bitsFor slots) := by
  unfold bitsFor
  cases h : ladder.find? (slots ≤ ·) with
  | some w => exact .inl (List.mem_of_find?_eq_some h)
  | none =>
    refine .inr ⟨?_, Nat.dvd_mul_left ..⟩
    have wide := List.find?_eq_none.mp h 1024 (by simp [ladder])
    simp [roundUp, wideStep] at wide ⊢
    omega

def holding (slots : Nat) : Mask.Width := ⟨bitsFor slots, isWidth_bitsFor slots⟩

/-- The least width that has a bit for each of the IDs. -/
def ofIds (ids : List UInt32) : Mask.Width :=
  holding ((ids.map (·.toNat + 1)).max?.getD 0)

def wordCount (w : Mask.Width) : Nat := (w.bits + (wordBits - 1)) / wordBits

def onLadder (w : Mask.Width) : Bool := ladder.contains w.bits

def text (w : Mask.Width) : String := s!"{w.bits} bits"

def wider (v w : Mask.Width) : Mask.Width := if v.bits ≤ w.bits then w else v

end Mask.Width
end EcsPlan
