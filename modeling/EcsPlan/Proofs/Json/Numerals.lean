import EcsPlan.Json.Outline

namespace EcsPlan.Json

/-- Nothing at the beginning of `rest` could go on with a numeral. -/
def EndsNumeral (rest : List Char) : Prop :=
  ∀ c cs, rest = c :: cs → c.isDigit = false ∧ c ≠ '.' ∧ c ≠ 'e' ∧ c ≠ 'E'

def numeral (n : Nat) : Numeral := ⟨false, (Nat.toDigits 10 n).map digitValue, none, none⟩

structure DigitText (digits : List Nat) (text : List Char) : Prop where
  some : text ≠ []
  run : ∀ c ∈ text, c.isDigit = true
  values : digits = text.map digitValue

inductive FractionText : Option (List Nat) → List Char → Prop where
  | none : FractionText none []
  | some {digits : List Nat} {text : List Char} (written : DigitText digits text) :
      FractionText (some digits) ('.' :: text)

inductive SignText : Bool → List Char → Prop where
  | none : SignText false []
  | plus : SignText false ['+']
  | minus : SignText true ['-']

inductive ExponentText : Option (Bool × List Nat) → List Char → Prop where
  | none : ExponentText none []
  | some {e : Char} {negative : Bool} {sign text : List Char} {digits : List Nat}
      (mark : e = 'e' ∨ e = 'E') (signed : SignText negative sign)
      (written : DigitText digits text) :
      ExponentText (some (negative, digits)) (e :: (sign ++ text))

/-- The text of a numeral. Its whole part has no needless zero in front. -/
inductive NumeralText : Numeral → List Char → Prop where
  | of {negative : Bool} {whole : List Nat} {fraction : Option (List Nat)}
      {exponent : Option (Bool × List Nat)} {w f x : List Char}
      (digits : DigitText whole w) (proper : ∀ d ds, whole ≠ 0 :: d :: ds)
      (behind : FractionText fraction f) (power : ExponentText exponent x) :
      NumeralText ⟨negative, whole, fraction, exponent⟩
        ((if negative then ['-'] else []) ++ (w ++ (f ++ x)))

theorem toDigits_isDigit {n : Nat} {c : Char} (member : c ∈ Nat.toDigits 10 n) :
    c.isDigit = true :=
  Nat.isDigit_of_mem_toDigits (by decide) (by decide) member

theorem toDigits_head {n : Nat} (positive : 0 < n) :
    ∃ c cs, Nat.toDigits 10 n = c :: cs ∧ digitValue c ≠ 0 := by
  induction n using Nat.strongRecOn with
  | ind n ih =>
    by_cases small : n < 10
    · refine ⟨n.digitChar, [], Nat.toDigits_of_lt_base small, ?_⟩
      rw [digitValue, Nat.toNat_digitChar_of_lt_ten small]
      omega
    · obtain ⟨c, cs, digits, nonzero⟩ := ih (n / 10) (by omega) (by omega)
      refine ⟨c, cs ++ [(n % 10).digitChar], ?_, nonzero⟩
      rw [Nat.toDigits_eq_if (by decide), if_neg small, digits, List.cons_append]

theorem natOfDigits_toDigits (n : Nat) :
    natOfDigits ((Nat.toDigits 10 n).map digitValue) = n := by
  have value : Nat.ofDigitChars 10 (Nat.toDigits 10 n) 0 = n := Nat.ofDigitChars_ten_toDigits
  have step : (fun a c => a * 10 + digitValue c) = fun a c => 10 * a + (c.toNat - '0'.toNat) := by
    funext a c
    rw [digitValue, Nat.mul_comm]
    rfl
  rw [natOfDigits, List.foldl_map, step]
  exact value

section Reading
variable {rest : List Char}

theorem digitText_head {digits : List Nat} {text : List Char} (written : DigitText digits text) :
    ∃ c cs, text = c :: cs ∧ c.isDigit = true := by
  obtain ⟨c, cs, rfl⟩ := List.exists_cons_of_ne_nil written.some
  exact ⟨c, cs, rfl, written.run c List.mem_cons_self⟩

theorem readDigits_text {digits : List Nat} {text : List Char} (written : DigitText digits text)
    (stops : ∀ c cs, rest = c :: cs → c.isDigit = false) :
    readDigits (text ++ rest) = .ok (digits, rest) := by
  have stopped : rest.takeWhile Char.isDigit = [] ∧ rest.dropWhile Char.isDigit = rest := by
    cases rest with
    | nil => exact ⟨rfl, rfl⟩
    | cons c cs => simp [stops c cs rfl]
  rw [readDigits, List.takeWhile_append_of_pos written.run,
    List.dropWhile_append_of_pos written.run, stopped.1, stopped.2, List.append_nil,
    written.values]
  obtain ⟨c, cs, rfl, -⟩ := digitText_head written
  rfl

theorem readWhole_text {digits : List Nat} {text : List Char} (written : DigitText digits text)
    (proper : ∀ d ds, digits ≠ 0 :: d :: ds)
    (stops : ∀ c cs, rest = c :: cs → c.isDigit = false) :
    readWhole (text ++ rest) = .ok (digits, rest) := by
  simp only [readWhole, readDigits_text written stops, bind, Except.bind]

theorem readSign_text {negative : Bool} {sign : List Char} (signed : SignText negative sign)
    {c : Char} (digit : c.isDigit = true) (cs : List Char) :
    readSign (sign ++ c :: cs) = (negative, c :: cs) := by
  cases signed with
  | plus => rfl
  | minus => rfl
  | none =>
    rw [List.nil_append]
    unfold readSign
    split
    · rename_i minus
      rw [(List.cons.inj minus).1] at digit
      contradiction
    · rename_i plus
      rw [(List.cons.inj plus).1] at digit
      contradiction
    · rfl

theorem readExponent_text {exponent : Option (Bool × List Nat)} {text : List Char}
    (power : ExponentText exponent text) (ends : EndsNumeral rest) :
    readExponent (text ++ rest) = .ok (exponent, rest) := by
  cases power with
  | none =>
    cases rest with
    | nil => rfl
    | cons c cs =>
      have other := (ends c cs rfl).2.2
      simp [readExponent, other.1, other.2]
  | some mark signed written =>
    obtain ⟨c, cs, rfl, digit⟩ := digitText_head written
    have read := readDigits_text written fun d ds same => (ends d ds same).1
    rw [List.cons_append, readExponent, if_pos mark, List.append_assoc, List.cons_append,
      readSign_text signed digit]
    simp only [← List.cons_append, read]
    rfl

theorem exponentText_stops {exponent : Option (Bool × List Nat)} {text : List Char}
    (power : ExponentText exponent text) (ends : EndsNumeral rest) (c : Char) (cs : List Char)
    (same : text ++ rest = c :: cs) : c.isDigit = false ∧ c ≠ '.' := by
  cases power with
  | none => exact ⟨(ends c cs same).1, (ends c cs same).2.1⟩
  | some mark signed written =>
    rw [← (List.cons.inj same).1]
    rcases mark with rfl | rfl <;> decide

theorem readFraction_text {fraction : Option (List Nat)} {text : List Char}
    (behind : FractionText fraction text)
    (stops : ∀ c cs, rest = c :: cs → c.isDigit = false ∧ c ≠ '.') :
    readFraction (text ++ rest) = .ok (fraction, rest) := by
  cases behind with
  | some written =>
    have read := readDigits_text written fun c cs same => (stops c cs same).1
    rw [List.cons_append, readFraction, read]
    rfl
  | none =>
    rw [List.nil_append]
    unfold readFraction
    split
    · rename_i cs
      exact False.elim ((stops '.' cs rfl).2 rfl)
    · rfl

theorem fractionText_stops {fraction : Option (List Nat)} {text : List Char}
    (behind : FractionText fraction text)
    (stops : ∀ c cs, rest = c :: cs → c.isDigit = false ∧ c ≠ '.') (c : Char) (cs : List Char)
    (same : text ++ rest = c :: cs) : c.isDigit = false := by
  cases behind with
  | none => exact (stops c cs same).1
  | some written =>
    rw [← (List.cons.inj same).1]
    rfl

theorem readNumeral_text {n : Numeral} {text : List Char} (written : NumeralText n text)
    (ends : EndsNumeral rest) : readNumeral (text ++ rest) = .ok (n, rest) := by
  obtain @⟨negative, whole, fraction, exponent, w, f, x, digits, proper, behind, power⟩ := written
  have stops := exponentText_stops power ends
  have read : readUnsigned negative (w ++ (f ++ (x ++ rest))) =
      .ok (⟨negative, whole, fraction, exponent⟩, rest) := by
    have first : readWhole (w ++ (f ++ (x ++ rest))) = .ok (whole, f ++ (x ++ rest)) :=
      readWhole_text digits proper (fractionText_stops behind stops)
    simp only [readUnsigned, first, readFraction_text behind stops, readExponent_text power ends,
      bind, Except.bind, pure, Except.pure]
  cases negative with
  | true => simpa [readNumeral] using read
  | false =>
    obtain ⟨c, cs, rfl, digit⟩ := digitText_head digits
    simp only [Bool.false_eq_true, if_false, List.nil_append, List.append_assoc]
    rw [← read]
    unfold readNumeral
    split
    · rename_i minus
      rw [(List.cons.inj minus).1] at digit
      contradiction
    · rfl

theorem numeralText_head {n : Numeral} {text : List Char} (written : NumeralText n text) :
    ∃ c cs, text = c :: cs ∧ (c = '-' ∨ c.isDigit = true) := by
  obtain @⟨negative, whole, fraction, exponent, w, f, x, digits, -, -, -⟩ := written
  obtain ⟨c, cs, rfl, digit⟩ := digitText_head digits
  cases negative with
  | true => exact ⟨'-', _, rfl, .inl rfl⟩
  | false => exact ⟨c, _, rfl, .inr digit⟩

theorem numeralText_toDigits (n : Nat) : NumeralText (numeral n) (Nat.toDigits 10 n) := by
  have digits : DigitText ((Nat.toDigits 10 n).map digitValue) (Nat.toDigits 10 n) :=
    ⟨Nat.toDigits_ne_nil, fun c => toDigits_isDigit, rfl⟩
  have proper : ∀ d ds, (Nat.toDigits 10 n).map digitValue ≠ 0 :: d :: ds := by
    intro d ds leading
    by_cases zero : n = 0
    · subst zero
      simp [Nat.toDigits_zero] at leading
    · obtain ⟨c, cs, text, nonzero⟩ := toDigits_head (Nat.pos_of_ne_zero zero)
      rw [text, List.map_cons] at leading
      exact nonzero (List.cons.inj leading).1
  have written := @NumeralText.of false _ none none _ [] [] digits proper .none .none
  simpa [numeral] using written

end Reading

theorem takeWhole_of_fits {digits : List Nat} {significand : Nat}
    (fits : digits.foldl (fun n d => n * 10 + d) significand ≤ greatestSignificand) :
    takeWhole significand digits =
      (digits.foldl (fun n d => n * 10 + d) significand, 0) := by
  induction digits generalizing significand with
  | nil => rfl
  | cons d rest ih =>
    have grows (l : List Nat) (n : Nat) : n ≤ l.foldl (fun n d => n * 10 + d) n := by
      induction l generalizing n with
      | nil => exact Nat.le_refl n
      | cons d l ih => exact Nat.le_trans (by omega) (ih (n * 10 + d))
    have here : Json.fits significand d = true :=
      decide_eq_true (Nat.le_trans (grows rest (significand * 10 + d)) fits)
    rw [takeWhole, here, if_pos rfl, ih fits, List.foldl_cons]

theorem numeral_value {n : Nat} (fits : n ≤ greatestSignificand) :
    (numeral n).value? = some (.integer n) := by
  have value := natOfDigits_toDigits n
  rw [natOfDigits] at value
  have taken : takeWhole 0 ((Nat.toDigits 10 n).map digitValue) = (n, 0) := by
    rw [takeWhole_of_fits (by rw [value]; exact fits), value]
  simp [Numeral.value?, numeral, taken, integerNumber]

end EcsPlan.Json
