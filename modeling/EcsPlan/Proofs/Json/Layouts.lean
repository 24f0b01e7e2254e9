import EcsPlan.Proofs.Json.Spellings
import EcsPlan.Proofs.Json.Trees

namespace EcsPlan.Json

structure Layout.Blank (l : Layout) : Prop where
  gap : ∀ depth, ∀ c ∈ l.gap depth, isBlank c = true
  afterColon : ∀ c ∈ l.afterColon, isBlank c = true

theorem compact_blank : Layout.compact.Blank where
  gap _ _ member := by contradiction
  afterColon _ member := by contradiction

theorem pretty_blank : Layout.pretty.Blank where
  gap depth c member := by
    rcases List.mem_cons.mp member with rfl | space
    · rfl
    · rw [List.eq_of_mem_replicate space]
      rfl
  afterColon c member := by
    rw [List.mem_singleton.mp member]
    rfl

section Tokens

mutual

def Tree.tokens : Tree → List (List Char)
  | .null => [['n', 'u', 'l', 'l']]
  | .bool b => [Tree.wordText b]
  | .num n => [Nat.toDigits 10 n]
  | .str s => [quote s]
  | .arr items => ['['] :: (commaed (itemsTokens items) ++ [[']']])
  | .obj members => ['{'] :: (commaed (membersTokens members) ++ [['}']])

def itemsTokens : List Tree → List (List (List Char))
  | [] => []
  | t :: rest => t.tokens :: itemsTokens rest

def membersTokens : List (String × Tree) → List (List (List Char))
  | [] => []
  | (key, t) :: rest => (quote key :: [':'] :: t.tokens) :: membersTokens rest

end

theorem itemsTokens_eq (items : List Tree) : itemsTokens items = items.map Tree.tokens := by
  induction items with
  | nil => rfl
  | cons t rest ih => rw [itemsTokens, ih, List.map_cons]

theorem membersTokens_eq (members : List (String × Tree)) :
    membersTokens members = members.map fun m => quote m.1 :: [':'] :: m.2.tokens := by
  induction members with
  | nil => rfl
  | cons m rest ih => rw [membersTokens, ih, List.map_cons]

theorem itemsOutline_eq (items : List Tree) :
    itemsOutline items = .of (items.map Tree.outline) := by
  induction items with
  | nil => rfl
  | cons t rest ih => rw [itemsOutline, ih, List.map_cons, Items.of]

theorem membersOutline_eq (members : List (String × Tree)) : membersOutline members =
    .of (members.map fun m => (.whole (some m.1), m.2.outline)) := by
  induction members with
  | nil => rfl
  | cons m rest ih => rw [membersOutline, ih, List.map_cons, Members.of]

theorem tree_tokens (t : Tree) : Tokens t.outline t.tokens := by
  induction t using Tree.induction with
  | null => exact .word .null
  | bool b => exact .word (.bool b)
  | num n => exact .numeral (numeralText_toDigits n)
  | str s => exact .text (quote_text s)
  | arr items each =>
    have list := @Tokens.list (items.map fun t => (t.outline, t.tokens)) (by simpa using each)
    simpa [Tree.outline, Tree.tokens, itemsOutline_eq, itemsTokens_eq, Function.comp_def] using list
  | obj members each =>
    have object := @Tokens.object
      (members.map fun m => ⟨.whole (some m.1), quote m.1, m.2.outline, m.2.tokens⟩)
      (List.forall_mem_map.mpr fun m _ => quote_text m.1) (List.forall_mem_map.mpr each)
    simpa [Tree.outline, Tree.tokens, membersOutline_eq, membersTokens_eq, Function.comp_def]
      using object

end Tokens

section Writing
variable {l : Layout} (blank : l.Blank) {more : List (List Char)} {cs : List Char}

def SpacedOut (l : Layout) (t : Tree) : Prop :=
  ∀ depth more cs, Spaced more cs → Spaced (t.tokens ++ more) (t.write l depth ++ cs)

include blank

theorem spaced_items (depth : Nat) {t : Tree} (first : SpacedOut l t) {items : List Tree}
    (each : ∀ s ∈ items, SpacedOut l s) (rest : Spaced more cs) :
    Spaced (commaed (itemsTokens (t :: items)) ++ more)
      (t.write l depth ++ (Tree.writeItems l depth items ++ cs)) := by
  induction items generalizing t with
  | nil => exact first depth more cs rest
  | cons s items ih =>
    obtain ⟨here, later⟩ := List.forall_mem_cons.mp each
    have others := ((ih here later).behind (blank.gap depth)).marked ','
    simpa [itemsTokens, commaed, Tree.writeItems] using first depth _ _ others

theorem spaced_members (depth : Nat) (key : String) {t : Tree} (first : SpacedOut l t)
    {members : List (String × Tree)} (each : ∀ m ∈ members, SpacedOut l m.2)
    (rest : Spaced more cs) :
    Spaced (commaed (membersTokens ((key, t) :: members)) ++ more)
      (quote key ++ (':' :: (l.afterColon ++ (t.write l depth ++
        (Tree.writeMembers l depth members ++ cs))))) := by
  induction members generalizing key t with
  | nil =>
    have value := ((first depth more cs rest).behind blank.afterColon).marked ':'
    simpa [membersTokens, commaed, Tree.writeMembers] using value.joined (quote key)
  | cons m members ih =>
    obtain ⟨here, later⟩ := List.forall_mem_cons.mp each
    have others := ((ih m.1 here later).behind (blank.gap depth)).marked ','
    have value := ((first depth _ _ others).behind blank.afterColon).marked ':'
    simpa [membersTokens, commaed, Tree.writeMembers] using value.joined (quote key)

theorem spaced_write (t : Tree) : SpacedOut l t := by
  induction t using Tree.induction with
  | null => exact fun _ _ _ rest => rest.joined _
  | bool b => exact fun _ _ _ rest => rest.joined _
  | num n => exact fun _ _ _ rest => rest.joined _
  | str s => exact fun _ _ _ rest => rest.joined _
  | arr items each =>
    intro depth more cs rest
    cases items with
    | nil => exact (rest.marked ']').marked '['
    | cons t items =>
      obtain ⟨first, others⟩ := List.forall_mem_cons.mp each
      have closed := (rest.marked ']').behind (blank.gap depth)
      have inside := spaced_items blank (depth + 1) first others closed
      have opened := (inside.behind (blank.gap (depth + 1))).marked '['
      simpa [Tree.tokens, Tree.write] using opened
  | obj members each =>
    intro depth more cs rest
    rcases members with _ | ⟨⟨key, t⟩, members⟩
    · exact (rest.marked '}').marked '{'
    · obtain ⟨first, others⟩ := List.forall_mem_cons.mp each
      have closed := (rest.marked '}').behind (blank.gap depth)
      have inside := spaced_members blank (depth + 1) key first others closed
      have opened := (inside.behind (blank.gap (depth + 1))).marked '{'
      simpa [Tree.tokens, Tree.write] using opened

theorem text_spells (t : Tree) : Spells t.outline (t.text l) := by
  have none : Blanks [] := by simp [Blanks]
  have spaced := spaced_write blank t 0 [] [] (.done none)
  rw [List.append_nil, List.append_nil] at spaced
  exact ⟨_, tree_tokens t, by rwa [Tree.text, String.toList_ofList]⟩

end Writing

theorem layout_blank (pretty : Bool) :
    (if pretty then Layout.pretty else .compact).Blank := by
  cases pretty with
  | false => exact compact_blank
  | true => exact pretty_blank

def parse (s : String) : Option Tree :=
  let (o, rest) := outline s.toList
  if (dropBlanks rest).isEmpty then o.tree? else none

theorem parse_text {l : Layout} (blank : l.Blank) (t : Tree) : parse (t.text l) = some t := by
  obtain ⟨rest, read, behind⟩ := outline_spelled (text_spells blank t)
  simp only [parse, read, behind]
  exact t.tree?_outline

theorem text_injective {l m : Layout} (left : l.Blank) (right : m.Blank) {t u : Tree}
    (same : t.text l = u.text m) : t = u := by
  have parsed := parse_text left t
  rw [same, parse_text right] at parsed
  exact (Option.some.inj parsed).symm

theorem Decoder.run_text {α : Type} (d : Decoder α) {l : Layout} (blank : l.Blank) (t : Tree) :
    d.run (t.text l).toList = d t.outline :=
  d.run_spelled (text_spells blank t)

end EcsPlan.Json
