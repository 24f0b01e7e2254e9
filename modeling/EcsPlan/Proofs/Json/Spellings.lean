import EcsPlan.Json.Decoder
import EcsPlan.Json.Tree
import EcsPlan.Proofs.Json.Steps

/-!
Texts of outlines. An outline without a break is spelled by a row of tokens, and a text is spaced
out if it has nothing but the tokens and any blanks before, between and behind them. However it
is spelled and spaced, the outline is what is read.
-/
namespace EcsPlan.Json

section Grammar

def Items.of : List Outline → Items
  | [] => .closed
  | value :: rest => .item value (.of rest)

def Members.of : List (Literal × Outline) → Members
  | [] => .closed
  | (key, value) :: rest => .member key value (.of rest)

def Word.text : Word → List Char
  | .null => ['n', 'u', 'l', 'l']
  | .bool b => Tree.wordText b

def commaed : List (List (List Char)) → List (List Char)
  | [] => []
  | [part] => part
  | part :: rest => part ++ [','] :: commaed rest

structure SpelledMember where
  key : Literal
  name : List Char
  value : Outline
  tokens : List (List Char)

/-- The tokens that spell an outline. -/
inductive Tokens : Outline → List (List Char) → Prop where
  | word (w : Word) : Tokens (.word w) [w.text]
  | numeral {n : Numeral} {text : List Char} (written : NumeralText n text) :
      Tokens (.numeral n) [text]
  | text {l : Literal} {text : List Char} (written : LiteralText l text) : Tokens (.text l) [text]
  | list {items : List (Outline × List (List Char))} (each : ∀ i ∈ items, Tokens i.1 i.2) :
      Tokens (.list (.of (items.map (·.1)))) (['['] :: (commaed (items.map (·.2)) ++ [[']']]))
  | object {members : List SpelledMember} (names : ∀ m ∈ members, LiteralText m.key m.name)
      (each : ∀ m ∈ members, Tokens m.value m.tokens) :
      Tokens (.object (.of (members.map fun m => (m.key, m.value))))
        (['{'] :: (commaed (members.map fun m => m.name :: [':'] :: m.tokens) ++ [['}']]))

def Blanks (bs : List Char) : Prop := ∀ c ∈ bs, isBlank c = true

/-- A text of these tokens with blanks before, between and behind them. -/
inductive Spaced : List (List Char) → List Char → Prop where
  | done {bs : List Char} (blank : Blanks bs) : Spaced [] bs
  | token {bs t cs : List Char} {ts : List (List Char)} (blank : Blanks bs)
      (rest : Spaced ts cs) : Spaced (t :: ts) (bs ++ (t ++ cs))

/-- The text holds this outline and nothing else. -/
def Spells (o : Outline) (text : String) : Prop :=
  ∃ tokens, Tokens o tokens ∧ Spaced tokens text.toList

end Grammar

section Tokens
variable {ts : List (List Char)} {cs rest : List Char}

theorem Spaced.split {t : List Char} (spaced : Spaced (t :: ts) cs) :
    ∃ bs rest, Blanks bs ∧ cs = bs ++ (t ++ rest) ∧ Spaced ts rest := by
  cases spaced with
  | token blank rest => exact ⟨_, _, blank, rfl, rest⟩

section Building
variable (spaced : Spaced ts cs)
include spaced

theorem Spaced.joined (t : List Char) : Spaced (t :: ts) (t ++ cs) := by
  have none : Blanks [] := by simp [Blanks]
  exact .token none spaced

theorem Spaced.marked (c : Char) : Spaced ([c] :: ts) (c :: cs) := spaced.joined [c]

theorem Spaced.behind {bs : List Char} (blank : Blanks bs) : Spaced ts (bs ++ cs) := by
  have both {ds : List Char} (more : Blanks ds) : Blanks (bs ++ ds) := by
    intro c member
    exact (List.mem_append.mp member).elim (blank c) (more c)
  cases spaced with
  | done more => exact .done (both more)
  | token more rest =>
    rw [← List.append_assoc]
    exact .token (both more) rest

end Building

theorem spaced_of {parts : List (List Char × List Char)} (blank : ∀ p ∈ parts, Blanks p.1)
    {last : List Char} (behind : Blanks last) :
    Spaced (parts.map (·.2)) (parts.flatMap (fun p => p.1 ++ p.2) ++ last) := by
  induction parts with
  | nil => exact .done behind
  | cons p parts ih =>
    obtain ⟨here, later⟩ := List.forall_mem_cons.mp blank
    have spaced := Spaced.token (t := p.2) here (ih later)
    simpa using spaced

theorem Spaced.mark {c : Char} (spaced : Spaced ([c] :: ts) cs) (solid : isBlank c = false) :
    ∃ rest, dropBlanks cs = c :: rest ∧ Spaced ts rest ∧ rest.length < cs.length := by
  obtain ⟨bs, rest, blank, rfl, later⟩ := spaced.split
  refine ⟨rest, dropBlanks_upTo blank solid rest, later, ?_⟩
  simp only [List.length_append, List.length_singleton]
  omega

theorem Spaced.begins {c : Char} {t : List Char} (spaced : Spaced ((c :: t) :: ts) cs)
    (solid : isBlank c = false) : ∃ ds, dropBlanks cs = c :: ds ∧
      Spaced ((c :: t) :: ts) (c :: ds) ∧ (c :: ds).length ≤ cs.length := by
  obtain ⟨bs, rest, blank, rfl, later⟩ := spaced.split
  refine ⟨t ++ rest, dropBlanks_upTo blank solid _, later.joined (c :: t), ?_⟩
  simp only [List.length_append, List.length_cons]
  omega

theorem Spaced.opened {bracket c : Char} {t : List Char} {row : List (List Char)}
    (spaced : Spaced ([bracket] :: row) cs) (first : row = (c :: t) :: ts)
    (solid : isBlank c = false) : ∃ bs inner ds, Blanks bs ∧ cs = bs ++ bracket :: inner ∧
      dropBlanks inner = c :: ds ∧ Spaced row (c :: ds) ∧ (c :: ds).length < cs.length := by
  obtain ⟨bs, inner, blank, rfl, later⟩ := spaced.split
  rw [first] at later ⊢
  obtain ⟨ds, begins, dropped, short⟩ := later.begins solid
  refine ⟨bs, inner, ds, blank, rfl, begins, dropped, ?_⟩
  simp only [List.length_append, List.length_singleton]
  omega

def Follows (more : List (List Char)) : Prop :=
  ∀ t ts, more = t :: ts → t = [','] ∨ t = [']'] ∨ t = ['}']

theorem follows_nil : Follows [] := by
  intro t ts same
  contradiction

theorem follows_cons {t : List Char} (mark : t = [','] ∨ t = [']'] ∨ t = ['}'])
    (ts : List (List Char)) : Follows (t :: ts) := by
  intro u us same
  rwa [← (List.cons.inj same).1]

theorem Follows.ends {more : List (List Char)} (follows : Follows more)
    (spaced : Spaced more rest) : EndsNumeral rest := by
  have other {c : Char} (ends : c.isDigit = false ∧ c ≠ '.' ∧ c ≠ 'e' ∧ c ≠ 'E')
      {bs cs : List Char} (blank : Blanks bs) : EndsNumeral (bs ++ ([c] ++ cs)) :=
    endsNumeral_blanks blank (endsNumeral_cons cs ends)
  cases spaced with
  | done blank =>
    intro c cs same
    have first := blank c (by simp [same])
    rcases isBlank_iff.mp first with rfl | rfl | rfl | rfl <;> decide
  | @token _ t _ ts blank =>
    rcases follows t ts rfl with rfl | rfl | rfl <;> exact other (by decide) blank

theorem Tokens.head {o : Outline} (tokens : Tokens o ts) :
    ∃ c cs rest, ts = (c :: cs) :: rest ∧ isBlank c = false ∧ c ≠ ']' := by
  cases tokens with
  | word w =>
    cases w with
    | null => exact ⟨'n', _, _, rfl, rfl, by decide⟩
    | bool b => cases b <;> exact ⟨_, _, _, rfl, rfl, by decide⟩
  | numeral written =>
    obtain ⟨c, cs, rfl, rfl | digit⟩ := numeralText_head written
    · exact ⟨'-', _, _, rfl, rfl, by decide⟩
    · refine ⟨c, _, _, rfl, digit_solid digit, ?_⟩
      rintro rfl
      contradiction
  | text written =>
    obtain ⟨body, rfl, -⟩ := readLiteral_text written
    exact ⟨'"', _, _, rfl, rfl, by decide⟩
  | list => exact ⟨'[', _, _, rfl, rfl, by decide⟩
  | object => exact ⟨'{', _, _, rfl, rfl, by decide⟩

end Tokens

section Reading

/-- The tokens are read as this outline, and what follows is left. -/
def ReadAs (o : Outline) (ts : List (List Char)) : Prop :=
  ∀ more cs fuel, Follows more → Spaced (ts ++ more) cs → 2 * cs.length + 1 ≤ fuel →
    ∃ rest, readValue fuel cs = (o, rest) ∧ Spaced more rest ∧ rest.length ≤ cs.length

theorem readItems_tokens {items : List (Outline × List (List Char))}
    (each : ∀ i ∈ items, ReadAs i.1 i.2) (some : items ≠ []) {more : List (List Char)}
    {cs : List Char} (spaced : Spaced (commaed (items.map (·.2)) ++ ([']'] :: more)) cs)
    (fuel : Nat) (enough : 2 * cs.length + 2 ≤ fuel) :
    ∃ rest, readItems fuel cs = (.of (items.map (·.1)), rest) ∧ Spaced more rest ∧
      rest.length ≤ cs.length := by
  obtain ⟨fuel, rfl⟩ := Nat.exists_eq_succ_of_ne_zero (Nat.ne_zero_of_lt enough)
  induction items generalizing cs fuel with
  | nil => contradiction
  | cons i items ih =>
    obtain ⟨here, later⟩ := List.forall_mem_cons.mp each
    cases items with
    | nil =>
      obtain ⟨rest, value, behind, short⟩ :=
        here _ cs fuel (follows_cons (by simp) more) spaced (by omega)
      obtain ⟨tail, close, left, shorter⟩ := behind.mark rfl
      exact ⟨tail, readItems_last value close, left, by omega⟩
    | cons j items =>
      rw [List.map_cons, List.map_cons, commaed, List.append_assoc] at spaced
      · obtain ⟨rest, value, behind, short⟩ :=
          here _ cs fuel (follows_cons (by simp) _) spaced (by omega)
        obtain ⟨tail, comma, left, shorter⟩ := behind.mark rfl
        obtain ⟨fuel, rfl⟩ := Nat.exists_eq_succ_of_ne_zero (n := fuel) (by omega)
        obtain ⟨last, read, remains, shortest⟩ :=
          ih later (by simp) left fuel (by omega)
        refine ⟨last, ?_, remains, by omega⟩
        rw [readItems_next value comma, read]
        rfl
      · simp

theorem readKey_tokens {key : Literal} {name : List Char} (named : LiteralText key name)
    {ts : List (List Char)} {cs : List Char} (spaced : Spaced (name :: [':'] :: ts) cs) :
    ∃ behind body, readKey cs = (key, behind) ∧ dropBlanks behind = ':' :: body ∧
      Spaced ts body ∧ body.length < cs.length := by
  obtain ⟨body, rfl, read⟩ := readLiteral_text named
  obtain ⟨bs, behind, blank, rfl, later⟩ := spaced.split
  obtain ⟨rest, colon, left, shorter⟩ := later.mark rfl
  refine ⟨behind, rest, ?_, colon, left, ?_⟩
  · rw [readKey, dropBlanks_blanks blank, List.cons_append, dropBlanks_solid rfl]
    exact read behind
  · simp only [List.length_append, List.length_cons]
    omega

theorem readMembers_tokens {members : List SpelledMember}
    (names : ∀ m ∈ members, LiteralText m.key m.name)
    (each : ∀ m ∈ members, ReadAs m.value m.tokens) (some : members ≠ [])
    {more : List (List Char)} {cs : List Char}
    (spaced : Spaced (commaed (members.map fun m => m.name :: [':'] :: m.tokens) ++
      (['}'] :: more)) cs) (fuel : Nat) (enough : 2 * cs.length + 2 ≤ fuel) :
    ∃ rest, readMembers fuel cs = (.of (members.map fun m => (m.key, m.value)), rest) ∧
      Spaced more rest ∧ rest.length ≤ cs.length := by
  obtain ⟨fuel, rfl⟩ := Nat.exists_eq_succ_of_ne_zero (Nat.ne_zero_of_lt enough)
  induction members generalizing cs fuel with
  | nil => contradiction
  | cons m members ih =>
    obtain ⟨named, others⟩ := List.forall_mem_cons.mp names
    obtain ⟨here, later⟩ := List.forall_mem_cons.mp each
    cases members with
    | nil =>
      obtain ⟨behind, body, key, colon, valued, shorter⟩ := readKey_tokens named spaced
      obtain ⟨rest, value, behind, short⟩ :=
        here _ body fuel (follows_cons (by simp) more) valued (by omega)
      obtain ⟨tail, close, left, shortest⟩ := behind.mark rfl
      exact ⟨tail, readMembers_last key colon value close, left, by omega⟩
    | cons n members =>
      rw [List.map_cons, List.map_cons, commaed, List.append_assoc] at spaced
      · obtain ⟨behind, body, key, colon, valued, shorter⟩ := readKey_tokens named spaced
        obtain ⟨rest, value, behind, short⟩ :=
          here _ body fuel (follows_cons (by simp) _) valued (by omega)
        obtain ⟨tail, comma, left, shortest⟩ := behind.mark rfl
        obtain ⟨fuel, rfl⟩ := Nat.exists_eq_succ_of_ne_zero (n := fuel) (by omega)
        obtain ⟨last, read, remains, end_short⟩ := ih others later (by simp) left fuel (by omega)
        refine ⟨last, ?_, remains, by omega⟩
        rw [readMembers_next key colon value comma, read]
        rfl
      · simp

theorem readAs_token {o : Outline} {t : List Char} (read : ∀ fuel rest, EndsNumeral rest →
    readValue (fuel + 1) (t ++ rest) = (o, rest)) : ReadAs o [t] := by
  intro more cs fuel follows spaced enough
  obtain ⟨fuel, rfl⟩ := Nat.exists_eq_succ_of_ne_zero (Nat.ne_zero_of_lt enough)
  obtain ⟨bs, rest, blank, rfl, later⟩ := spaced.split
  refine ⟨rest, ?_, later, ?_⟩
  · rw [readValue_blanks blank, read fuel rest (follows.ends later)]
  · simp only [List.length_append]
    omega

theorem word_readAs (w : Word) : ReadAs (.word w) [w.text] := by
  refine readAs_token fun fuel rest _ => ?_
  rcases w with _ | _ | _ <;> rfl

theorem numeral_readAs {n : Numeral} {text : List Char} (written : NumeralText n text) :
    ReadAs (.numeral n) [text] := by
  refine readAs_token fun fuel rest ends => ?_
  have read : readNumber (text ++ rest) = (.numeral n, rest) := by
    rw [readNumber, readNumeral_text written ends]
  obtain ⟨c, cs, rfl, rfl | digit⟩ := numeralText_head written
  · rw [← read]
    rfl
  · rw [← read, List.cons_append, readValue_digit digit]

theorem literal_readAs {l : Literal} {text : List Char} (written : LiteralText l text) :
    ReadAs (.text l) [text] := by
  refine readAs_token fun fuel rest _ => ?_
  obtain ⟨body, rfl, read⟩ := readLiteral_text written
  simp only [List.cons_append, readValue, dropBlanks_solid (c := '"') rfl, read]

theorem commaed_cons (part : List (List Char)) (parts : List (List (List Char))) :
    ∃ others, commaed (part :: parts) = part ++ others := by
  cases parts with
  | nil => exact ⟨[], (List.append_nil part).symm⟩
  | cons next parts => exact ⟨_, rfl⟩

theorem list_readAs {items : List (Outline × List (List Char))}
    (tokens : ∀ i ∈ items, Tokens i.1 i.2) (each : ∀ i ∈ items, ReadAs i.1 i.2) :
    ReadAs (.list (.of (items.map (·.1)))) (['['] :: (commaed (items.map (·.2)) ++ [[']']])) := by
  intro more cs fuel _ spaced enough
  obtain ⟨fuel, rfl⟩ := Nat.exists_eq_succ_of_ne_zero (Nat.ne_zero_of_lt enough)
  rw [List.cons_append, List.append_assoc, List.singleton_append] at spaced
  cases items with
  | nil =>
    obtain ⟨bs, inner, blank, rfl, later⟩ := spaced.split
    obtain ⟨rest, close, left, shorter⟩ := Spaced.mark later rfl
    refine ⟨rest, ?_, left, ?_⟩
    · rw [readValue_blanks blank]
      exact readValue_closed_list close
    · simp only [List.length_append]
      omega
  | cons i items =>
    obtain ⟨c, t, ts, first, solid, opens⟩ := (tokens i List.mem_cons_self).head
    obtain ⟨others, joined⟩ := commaed_cons i.2 (items.map (·.2))
    have row : commaed ((i :: items).map (·.2)) ++ ([']'] :: more) =
        (c :: t) :: (ts ++ others ++ ([']'] :: more)) := by
      rw [List.map_cons, joined, first]
      simp
    obtain ⟨bs, inner, ds, blank, rfl, begins, dropped, shorter⟩ := spaced.opened row solid
    obtain ⟨rest, read, left, short⟩ :=
      readItems_tokens each (List.cons_ne_nil i items) dropped fuel (by omega)
    refine ⟨rest, ?_, left, by omega⟩
    rw [readValue_blanks blank, readValue_list begins opens, read]

theorem object_readAs {members : List SpelledMember}
    (names : ∀ m ∈ members, LiteralText m.key m.name)
    (each : ∀ m ∈ members, ReadAs m.value m.tokens) :
    ReadAs (.object (.of (members.map fun m => (m.key, m.value))))
      (['{'] :: (commaed (members.map fun m => m.name :: [':'] :: m.tokens) ++ [['}']])) := by
  intro more cs fuel _ spaced enough
  obtain ⟨fuel, rfl⟩ := Nat.exists_eq_succ_of_ne_zero (Nat.ne_zero_of_lt enough)
  rw [List.cons_append, List.append_assoc, List.singleton_append] at spaced
  cases members with
  | nil =>
    obtain ⟨bs, inner, blank, rfl, later⟩ := spaced.split
    obtain ⟨rest, close, left, shorter⟩ := Spaced.mark later rfl
    refine ⟨rest, ?_, left, ?_⟩
    · rw [readValue_blanks blank]
      exact readValue_closed_object close
    · simp only [List.length_append]
      omega
  | cons m members =>
    obtain ⟨body, first, -⟩ := readLiteral_text (names m List.mem_cons_self)
    obtain ⟨others, joined⟩ := commaed_cons (m.name :: [':'] :: m.tokens)
      (members.map fun m => m.name :: [':'] :: m.tokens)
    have row : commaed ((m :: members).map fun m => m.name :: [':'] :: m.tokens) ++
        (['}'] :: more) = ('"' :: body) :: ([':'] :: m.tokens ++ others ++ (['}'] :: more)) := by
      rw [List.map_cons, joined, first]
      simp
    obtain ⟨bs, inner, ds, blank, rfl, begins, dropped, shorter⟩ := spaced.opened row rfl
    obtain ⟨rest, read, left, short⟩ :=
      readMembers_tokens names each (List.cons_ne_nil m members) dropped fuel (by omega)
    refine ⟨rest, ?_, left, by omega⟩
    rw [readValue_blanks blank, readValue_object begins (by decide), read]

/-- Whatever tokens spell an outline, the outline is read. -/
theorem readValue_tokens {o : Outline} {ts : List (List Char)} (tokens : Tokens o ts) :
    ReadAs o ts := by
  induction tokens with
  | word w => exact word_readAs w
  | numeral written => exact numeral_readAs written
  | text written => exact literal_readAs written
  | list tokens each => exact list_readAs tokens each
  | object names _ each => exact object_readAs names each

theorem outline_spelled {o : Outline} {text : String} (spelled : Spells o text) :
    ∃ rest, outline text.toList = (o, rest) ∧ dropBlanks rest = [] := by
  obtain ⟨ts, tokens, spaced⟩ := spelled
  rw [← List.append_nil ts] at spaced
  obtain ⟨rest, read, left, -⟩ :=
    readValue_tokens tokens [] text.toList _ follows_nil spaced (Nat.le_refl _)
  refine ⟨rest, read, ?_⟩
  cases left with
  | done blank =>
    have behind := dropBlanks_blanks blank []
    rwa [List.append_nil] at behind

/-- A decoder sees of a text no more than the outline that it spells. -/
theorem Decoder.run_spelled {α : Type} (d : Decoder α) {o : Outline} {text : String}
    (spelled : Spells o text) : d.run text.toList = d o := by
  obtain ⟨rest, read, blank⟩ := outline_spelled spelled
  simp only [run, read, blank]
  cases d o <;> rfl

end Reading

section Whole

theorem items_whole_iff {values : List Outline} :
    (Items.of values).firstBreak? = none ↔ ∀ o ∈ values, o.firstBreak? = none := by
  induction values with
  | nil => simp [Items.of, Items.firstBreak?]
  | cons o rest ih => simp [Items.of, Items.firstBreak?, ih]

theorem members_whole_iff {members : List (Literal × Outline)} :
    (Members.of members).firstBreak? = none ↔
      ∀ m ∈ members, m.1.firstBreak? = none ∧ m.2.firstBreak? = none := by
  induction members with
  | nil => simp [Members.of, Members.firstBreak?]
  | cons m rest ih => simp [Members.of, Members.firstBreak?, ih]

theorem literal_whole {l : Literal} {text : List Char} (written : LiteralText l text) :
    l.firstBreak? = none := by
  cases written
  rfl

theorem Tokens.whole {o : Outline} {ts : List (List Char)} (tokens : Tokens o ts) :
    o.firstBreak? = none := by
  induction tokens with
  | word => rfl
  | numeral => rfl
  | text written => exact literal_whole written
  | list _ each =>
    rw [Outline.firstBreak?, items_whole_iff]
    intro o member
    obtain ⟨i, listed, rfl⟩ := List.mem_map.mp member
    exact each i listed
  | object names _ each =>
    rw [Outline.firstBreak?, members_whole_iff]
    intro m member
    obtain ⟨m, listed, rfl⟩ := List.mem_map.mp member
    exact ⟨literal_whole (names m listed), each m listed⟩

theorem Spells.whole {o : Outline} {text : String} (spelled : Spells o text) :
    o.firstBreak? = none := by
  obtain ⟨_, tokens, _⟩ := spelled
  exact tokens.whole

end Whole

end EcsPlan.Json
