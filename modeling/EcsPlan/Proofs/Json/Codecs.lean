import EcsPlan.Json.Record
import EcsPlan.Proofs.Ascending
import EcsPlan.Proofs.Json.Trees

namespace EcsPlan.Json

/-- The decoder gives back what the encoder put into a tree. -/
def Undoes {α : Type} (d : Decoder α) (e : α → Tree) : Prop :=
  ∀ a, d (e a).outline = .ok a

section Parts
variable {α : Type} {d : Decoder α} {e : α → Tree}

@[simp]
theorem string_undoes : Undoes .string .str := fun _ => rfl

@[simp]
theorem bool_undoes : Undoes .bool .bool := fun _ => rfl

@[simp]
theorem word32_undoes : Undoes .word32 wordTree := by
  intro n
  have small : n.toNat < UInt32.size := n.toNat_lt
  have fits : n.toNat ≤ greatestSignificand := by
    simp only [UInt32.size, greatestSignificand] at *
    omega
  have inRange : (0 : Int) ≤ n.toNat ∧ (n.toNat : Int) < UInt32.size := by omega
  rw [wordTree, Tree.outline, Decoder.word32, numeral_value fits]
  simp only [inRange, and_self, if_true, Int.toNat_natCast, UInt32.ofNat_toNat]

@[simp]
theorem optional_undoes (undoes : Undoes d e) (value : ∀ a, e a ≠ .null) :
    Undoes (.optional d) (optionTree e) := by
  intro o
  cases o with
  | none => rfl
  | some a =>
    have solid : (e a).outline ≠ .word .null := by
      intro null
      have same := congrArg Outline.tree? null
      rw [Tree.tree?_outline] at same
      exact value a (Option.some.inj same)
    rw [optionTree, Decoder.optional, undoes a]
    · rfl
    · exact solid

@[simp]
theorem list_undoes (undoes : Undoes d e) : Undoes (.list d) (listTree e) := by
  intro l
  have each : Decoder.items d (itemsOutline (l.map e)) = .ok l := by
    induction l with
    | nil => rfl
    | cons a rest ih => simp [itemsOutline, Decoder.items, undoes a, ih, bind, Except.bind, pure,
        Except.pure]
  simpa [listTree, Tree.outline, Decoder.list] using each

theorem choice_undoes {known : List α} {text : α → String} (complete : ∀ a, a ∈ known)
    (distinct : (known.map text).Nodup) :
    Undoes (.choice known text) fun a => .str (text a) := by
  intro a
  have found : known.find? (text · = text a) = some a :=
    (find?_key_iff distinct).mpr ⟨complete a, rfl⟩
  simp [Tree.outline, Decoder.choice, Literal.text, Decoder.variant, found, bind, Except.bind]

theorem Undoes.injective (undoes : Undoes d e) : Function.Injective e := by
  intro a b same
  have decoded := undoes a
  rw [same, undoes b] at decoded
  exact (Except.ok.inj decoded).symm

end Parts

section Records
variable {α β : Type}

def fill (a : α) : List (Field α) → α → Except Fault α
  | [], b => .ok b
  | f :: fields, b => do fill a fields (← f.decode b (f.encode a).outline)

@[simp]
theorem fill_nil (a b : α) : fill a [] b = .ok b := rfl

@[simp]
theorem fill_of {name : String} {presence : Presence} {d : Decoder β} {e : β → Tree}
    {get : α → β} {set : α → β → α} (undoes : Undoes d e) (fields : List (Field α)) (a b : α) :
    fill a (.of name presence d e get set :: fields) b = fill a fields (set b (get a)) := by
  rw [fill, Field.of]
  simp only [undoes (get a), Except.map, bind, Except.bind]

namespace Record
variable {r : Record α}

theorem none_missing {met : List (Field α)} (all : ∀ f ∈ r.fields, f ∈ met) :
    r.fields.find? (fun f => f.presence = .required && !(met.map (·.name)).contains f.name) =
      none := by
  apply List.find?_eq_none.mpr
  intro f member
  have listed : (met.map (·.name)).contains f.name = true :=
    List.contains_iff_mem.mpr (List.mem_map_of_mem (all f member))
  rw [listed]
  simp

/-- Behind the fields in `met` the others are filled in, and at the end none that is required
    is missing. -/
theorem fromMembers_encoded (distinct : (r.fields.map (·.name)).Nodup) (a b : α)
    (met : List (Field α)) {fields : List (Field α)} (split : r.fields = met.reverse ++ fields) :
    r.fromMembers b (met.map (·.name))
      (membersOutline (fields.map fun f => (f.name, f.encode a))) = fill a fields b := by
  induction fields generalizing met b with
  | nil =>
    have all : ∀ f ∈ r.fields, f ∈ met := by simp [split]
    rw [List.map_nil, membersOutline, fromMembers, none_missing all]
    rfl
  | cons f rest ih =>
    have known : r.field? f.name = some f :=
      (find?_key_iff distinct).mpr ⟨by simp [split], rfl⟩
    have fresh : (met.map (·.name)).contains f.name = false := by
      have apart : ∀ g ∈ met, g.name ≠ f.name := by
        rw [split, List.map_append] at distinct
        intro g earlier
        exact (List.nodup_append.mp distinct).2.2 g.name
          (List.mem_map_of_mem (List.mem_reverse.mpr earlier)) f.name (by simp)
      simpa using apart
    rw [List.map_cons, membersOutline, fromMembers, Literal.text, fill]
    simp only [known, fresh, bind, Except.bind, Bool.false_eq_true, if_false]
    cases f.decode b (f.encode a).outline with
    | error fault => rfl
    | ok c => exact ih c (f :: met) (by simp [split])

theorem decode_encode (distinct : (r.fields.map (·.name)).Nodup) (a : α) :
    r.decode (r.encode a).outline = fill a r.fields r.blank := by
  rw [encode, Tree.outline]
  exact fromMembers_encoded distinct a r.blank [] rfl

end Record
end Records
end EcsPlan.Json
