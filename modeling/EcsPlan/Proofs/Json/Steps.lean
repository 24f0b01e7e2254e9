import EcsPlan.Proofs.Json.Literals
import EcsPlan.Proofs.Json.Numerals

namespace EcsPlan.Json

theorem isBlank_iff {c : Char} :
    isBlank c = true ↔ c = ' ' ∨ c = '\t' ∨ c = '\n' ∨ c = '\r' := by
  simp [isBlank, or_assoc]

theorem dropBlanks_solid {c : Char} (solid : isBlank c = false) (cs : List Char) :
    dropBlanks (c :: cs) = c :: cs :=
  List.dropWhile_cons_of_neg (by simp [solid])

theorem digit_solid {c : Char} (digit : c.isDigit = true) : isBlank c = false := by
  apply Bool.eq_false_iff.mpr
  intro blank
  rcases isBlank_iff.mp blank with rfl | rfl | rfl | rfl <;> contradiction

section Blanks
variable {bs : List Char} (blank : ∀ c ∈ bs, isBlank c = true)
include blank

theorem dropBlanks_blanks (cs : List Char) : dropBlanks (bs ++ cs) = dropBlanks cs :=
  List.dropWhile_append_of_pos blank

theorem dropBlanks_upTo {c : Char} (solid : isBlank c = false) (cs : List Char) :
    dropBlanks (bs ++ c :: cs) = c :: cs := by
  rw [dropBlanks_blanks blank, dropBlanks_solid solid]

theorem readValue_blanks (fuel : Nat) (cs : List Char) :
    readValue fuel (bs ++ cs) = readValue fuel cs := by
  cases fuel with
  | zero => rfl
  | succ fuel => simp only [readValue, dropBlanks_blanks blank]

theorem endsNumeral_blanks {c : Char} {cs : List Char} (ends : EndsNumeral (c :: cs)) :
    EndsNumeral (bs ++ c :: cs) := by
  cases bs with
  | nil => exact ends
  | cons b bs =>
    intro d ds same
    have first := blank b (by simp)
    rw [(List.cons.inj same).1] at first
    rcases isBlank_iff.mp first with rfl | rfl | rfl | rfl <;> decide

end Blanks

theorem endsNumeral_cons {c : Char} (cs : List Char)
    (ends : c.isDigit = false ∧ c ≠ '.' ∧ c ≠ 'e' ∧ c ≠ 'E') : EndsNumeral (c :: cs) := by
  intro d ds same
  rwa [← (List.cons.inj same).1]

section Steps
variable {fuel : Nat} {cs rest tail : List Char} {o : Outline}

theorem readValue_digit {c : Char} (digit : c.isDigit = true) :
    readValue (fuel + 1) (c :: cs) = readNumber (c :: cs) := by
  simp only [readValue, dropBlanks_solid (digit_solid digit)]
  split
  all_goals first
    | (rename_i same; rw [(List.cons.inj same).1] at digit; contradiction)
    | simp_all

theorem readValue_list {c : Char} {ds : List Char} (begins : dropBlanks cs = c :: ds)
    (opens : c ≠ ']') : readValue (fuel + 1) ('[' :: cs) =
      (.list (readItems fuel (c :: ds)).1, (readItems fuel (c :: ds)).2) := by
  have bracket : dropBlanks ('[' :: cs) = '[' :: cs := dropBlanks_solid rfl cs
  simp only [readValue, bracket, begins]
  split
  · contradiction
  · rename_i same
    exact False.elim (opens (List.cons.inj same).1)
  · rfl

theorem readValue_object {c : Char} {ds : List Char} (begins : dropBlanks cs = c :: ds)
    (opens : c ≠ '}') : readValue (fuel + 1) ('{' :: cs) =
      (.object (readMembers fuel (c :: ds)).1, (readMembers fuel (c :: ds)).2) := by
  have brace : dropBlanks ('{' :: cs) = '{' :: cs := dropBlanks_solid rfl cs
  simp only [readValue, brace, begins]
  split
  · contradiction
  · rename_i same
    exact False.elim (opens (List.cons.inj same).1)
  · rfl

theorem readValue_closed_list (close : dropBlanks cs = ']' :: rest) :
    readValue (fuel + 1) ('[' :: cs) = (.list .closed, rest) := by
  have bracket : dropBlanks ('[' :: cs) = '[' :: cs := dropBlanks_solid rfl cs
  simp only [readValue, bracket, close]

theorem readValue_closed_object (close : dropBlanks cs = '}' :: rest) :
    readValue (fuel + 1) ('{' :: cs) = (.object .closed, rest) := by
  have brace : dropBlanks ('{' :: cs) = '{' :: cs := dropBlanks_solid rfl cs
  simp only [readValue, brace, close]

theorem readItems_last (value : readValue fuel cs = (o, rest))
    (close : dropBlanks rest = ']' :: tail) :
    readItems (fuel + 1) cs = (.item o .closed, tail) := by
  simp only [readItems, value, close]

theorem readItems_next (value : readValue fuel cs = (o, rest))
    (comma : dropBlanks rest = ',' :: tail) :
    readItems (fuel + 1) cs = (.item o (readItems fuel tail).1, (readItems fuel tail).2) := by
  simp only [readItems, value, comma]

variable {key : Literal} {behind body : List Char} (name : readKey cs = (key, behind))
  (colon : dropBlanks behind = ':' :: body)
include name colon

theorem readMembers_last (value : readValue fuel body = (o, rest))
    (close : dropBlanks rest = '}' :: tail) :
    readMembers (fuel + 1) cs = (.member key o .closed, tail) := by
  simp only [readMembers, name, colon, value, close]

theorem readMembers_next (value : readValue fuel body = (o, rest))
    (comma : dropBlanks rest = ',' :: tail) :
    readMembers (fuel + 1) cs =
      (.member key o (readMembers fuel tail).1, (readMembers fuel tail).2) := by
  simp only [readMembers, name, colon, value, comma]

end Steps

end EcsPlan.Json
