import EcsPlan.Json.Outline

namespace EcsPlan.Json

theorem hexUnit_control (n : Fin 32) :
    hexUnit '0' '0' (hexChar (n / 16)) (hexChar (n % 16)) = some n.val := by
  revert n
  decide

def Piece.Stands (p : Piece) (c : Char) : Prop :=
  p = .char c ∨ p = .unit c.toNat ∧ c.toNat < 32

/-- The ways in which a piece of a literal is written. -/
inductive PieceText : Piece → List Char → Prop where
  | plain {c : Char} (visible : 32 ≤ c.toNat) (quote : c ≠ '"') (backslash : c ≠ '\\') :
      PieceText (.char c) [c]
  | short {e c : Char} (escape : shortEscape e = some c) : PieceText (.char c) ['\\', e]
  | unit {a b c d : Char} {u : Nat} (hex : hexUnit a b c d = some u) :
      PieceText (.unit u) ['\\', 'u', a, b, c, d]

theorem readQuoted_piece {p : Piece} {text : List Char} (written : PieceText p text)
    (cs : List Char) : readQuoted (text ++ cs) = (readQuoted cs).push p := by
  cases written with
  | plain visible quote backslash =>
    rw [List.singleton_append, readQuoted]
    · rw [if_neg (Nat.not_lt.mpr visible)]
    all_goals simp_all
  | @short e c escape =>
    have letter : e ≠ 'u' := by
      rintro rfl
      contradiction
    simp only [List.cons_append, List.nil_append]
    rw [readQuoted]
    · simp only [escape]
    all_goals simp_all
  | unit hex => simp only [List.cons_append, List.nil_append, readQuoted, hex]

theorem escaped_piece (c : Char) : ∃ p : Piece, p.Stands c ∧ PieceText p (escaped c) := by
  fun_cases escaped c with
  | case1 => exact ⟨_, .inl rfl, .short rfl⟩
  | case2 => exact ⟨_, .inl rfl, .short rfl⟩
  | case3 => exact ⟨_, .inl rfl, .short rfl⟩
  | case4 => exact ⟨_, .inl rfl, .short rfl⟩
  | case5 => exact ⟨_, .inl rfl, .short rfl⟩
  | case6 => exact ⟨_, .inl rfl, .short rfl⟩
  | case7 => exact ⟨_, .inl rfl, .short rfl⟩
  | case8 c _ _ _ _ _ _ _ control =>
    exact ⟨.unit c.toNat, .inr ⟨rfl, control⟩, .unit (hexUnit_control ⟨c.toNat, control⟩)⟩
  | case9 c quote backslash _ _ _ _ _ plain =>
    exact ⟨.char c, .inl rfl, .plain (Nat.not_lt.mp plain) quote backslash⟩

theorem joinPieces_stands {p : Piece} {c : Char} (stands : p.Stands c) (rest : List Piece) :
    joinPieces none (p :: rest) =
      (joinPieces none rest).map fun (cs, waits) => (c :: cs, waits) := by
  rcases stands with rfl | ⟨rfl, control⟩
  · rfl
  · have high : isHigh c.toNat = false := by simp [isHigh]; omega
    have low : isLow c.toNat = false := by simp [isLow]; omega
    simp only [joinPieces, high, low, Char.ofNat_toNat, Bool.false_eq_true, if_false]

/-- The text of a literal. One whose surrogates are not in pairs has no content. -/
inductive LiteralText : Literal → List Char → Prop where
  | of {parts : List (Piece × List Char)} (written : ∀ p ∈ parts, PieceText p.1 p.2) :
      LiteralText (.whole (textOf? (parts.map (·.1)))) ('"' :: (parts.flatMap (·.2) ++ ['"']))

theorem readLiteral_text {l : Literal} {text : List Char} (written : LiteralText l text) :
    ∃ body, text = '"' :: body ∧ ∀ rest, readLiteral (body ++ rest) = (l, rest) := by
  obtain @⟨parts, written⟩ := written
  refine ⟨_, rfl, fun rest => ?_⟩
  have read : readQuoted (parts.flatMap (·.2) ++ '"' :: rest) = ⟨parts.map (·.1), .ok rest⟩ := by
    induction parts with
    | nil => rfl
    | cons p parts ih =>
      obtain ⟨here, later⟩ := List.forall_mem_cons.mp written
      rw [List.flatMap_cons, List.append_assoc, readQuoted_piece here, ih later]
      rfl
  rw [List.append_assoc, List.singleton_append, readLiteral, read]

theorem quote_text (s : String) : LiteralText (.whole (some s)) (quote s) := by
  have each : ∀ cs : List Char, ∃ parts : List (Piece × List Char),
      (∀ p ∈ parts, PieceText p.1 p.2) ∧ parts.flatMap (·.2) = cs.flatMap escaped ∧
        joinPieces none (parts.map (·.1)) = some (cs, false) := by
    intro cs
    induction cs with
    | nil => exact ⟨[], by simp, rfl, rfl⟩
    | cons c cs ih =>
      obtain ⟨parts, written, text, joined⟩ := ih
      obtain ⟨p, stands, first⟩ := escaped_piece c
      refine ⟨(p, escaped c) :: parts, List.forall_mem_cons.mpr ⟨first, written⟩, ?_, ?_⟩
      · rw [List.flatMap_cons, List.flatMap_cons, text]
      · rw [List.map_cons, joinPieces_stands stands, joined]
        rfl
  obtain ⟨parts, written, text, joined⟩ := each s.toList
  have literal := LiteralText.of written
  rw [text, textOf?, joined] at literal
  simpa [quote] using literal

end EcsPlan.Json
