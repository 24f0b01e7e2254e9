import EcsPlan.Json.Tree
import EcsPlan.Proofs.Json.Literals
import EcsPlan.Proofs.Json.Numerals

namespace EcsPlan.Json

/-- What holds of a tree if it holds of its items and of the values of its members. -/
theorem Tree.induction {P : Tree → Prop} (null : P .null) (bool : ∀ b, P (.bool b))
    (num : ∀ n, P (.num n)) (str : ∀ s, P (.str s))
    (arr : ∀ items, (∀ t ∈ items, P t) → P (.arr items))
    (obj : ∀ members : List (String × Tree), (∀ m ∈ members, P m.2) → P (.obj members)) :
    ∀ t, P t
  | .null => null
  | .bool b => bool b
  | .num n => num n
  | .str s => str s
  | .arr items => arr items fun t member =>
      have smaller := List.sizeOf_lt_of_mem member
      Tree.induction null bool num str arr obj t
  | .obj members => obj members fun m member =>
      have smaller := List.sizeOf_lt_of_mem member
      have part : sizeOf m.2 < sizeOf m := by cases m; simp only [Prod.mk.sizeOf_spec]; omega
      Tree.induction null bool num str arr obj m.2
termination_by t => sizeOf t
decreasing_by all_goals simp_wf; omega

section Outlines

mutual

def Tree.outline : Tree → Outline
  | .null => .word .null
  | .bool b => .word (.bool b)
  | .num n => .numeral (numeral n)
  | .str s => .text (.whole (some s))
  | .arr items => .list (itemsOutline items)
  | .obj members => .object (membersOutline members)

def itemsOutline : List Tree → Items
  | [] => .closed
  | t :: rest => .item t.outline (itemsOutline rest)

def membersOutline : List (String × Tree) → Members
  | [] => .closed
  | (key, t) :: rest => .member (.whole (some key)) t.outline (membersOutline rest)

end

mutual

/-- The tree of an outline that is whole and has no numbers but natural ones. -/
def Outline.tree? : Outline → Option Tree
  | .word .null => some .null
  | .word (.bool b) => some (.bool b)
  | .numeral ⟨false, digits, none, none⟩ => some (.num (natOfDigits digits))
  | .text (.whole (some s)) => some (.str s)
  | .list items => items.trees?.map .arr
  | .object members => members.members?.map .obj
  | _ => none

def Items.trees? : Items → Option (List Tree)
  | .closed => some []
  | .broken _ => none
  | .item value rest => do
    let t ← value.tree?
    let more ← rest.trees?
    return t :: more

def Members.members? : Members → Option (List (String × Tree))
  | .closed => some []
  | .member (.whole (some key)) value rest => do
    let t ← value.tree?
    let more ← rest.members?
    return (key, t) :: more
  | .broken _ | .member .. => none

end

end Outlines

theorem trees?_itemsOutline {items : List Tree}
    (each : ∀ t ∈ items, t.outline.tree? = some t) :
    (itemsOutline items).trees? = some items := by
  induction items with
  | nil => rfl
  | cons t rest ih =>
    simp [itemsOutline, Items.trees?, each t (by simp), ih fun s later => each s (by simp [later])]

theorem members?_membersOutline {members : List (String × Tree)}
    (each : ∀ m ∈ members, m.2.outline.tree? = some m.2) :
    (membersOutline members).members? = some members := by
  induction members with
  | nil => rfl
  | cons m rest ih =>
    simp [membersOutline, Members.members?, each m (by simp),
      ih fun s later => each s (by simp [later])]

theorem Tree.tree?_outline (t : Tree) : t.outline.tree? = some t := by
  induction t using Tree.induction with
  | null => rfl
  | bool b => rfl
  | num n => simp [outline, numeral, Outline.tree?, natOfDigits_toDigits]
  | str s => rfl
  | arr items each => simp [outline, Outline.tree?, trees?_itemsOutline each]
  | obj members each => simp [outline, Outline.tree?, members?_membersOutline each]

end EcsPlan.Json
