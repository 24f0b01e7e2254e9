namespace EcsPlan

structure SortedSet (α : Type) [Ord α] where
  toList : List α
  ascending : toList.Pairwise (fun a b => compare a b = .lt)

namespace SortedSet
variable {α : Type} [Ord α]

instance [DecidableEq α] : DecidableEq (SortedSet α) := fun s t =>
  decidable_of_iff (s.toList = t.toList) (by cases s; cases t; simp)

instance [Repr α] : Repr (SortedSet α) := ⟨fun s n => reprPrec s.toList n⟩

instance : Membership α (SortedSet α) := ⟨fun s a => a ∈ s.toList⟩

def empty : SortedSet α := ⟨[], .nil⟩

instance : Inhabited (SortedSet α) := ⟨empty⟩

def isEmpty (s : SortedSet α) : Bool := s.toList.isEmpty

def place (a : α) : List α → List α
  | [] => [a]
  | b :: rest =>
    match compare a b with
    | .lt => a :: b :: rest
    | .eq => b :: rest
    | .gt => b :: place a rest

theorem mem_place_imp {a x : α} {l : List α} (h : x ∈ place a l) : x = a ∨ x ∈ l := by
  induction l with
  | nil => simpa [place] using h
  | cons b rest ih =>
    simp only [place] at h
    split at h
    · simpa using h
    · exact .inr h
    · rcases List.mem_cons.mp h with rfl | h
      · simp
      · rcases ih h with rfl | h <;> simp_all

theorem place_ascending [Std.TransOrd α] (a : α) {l : List α}
    (h : l.Pairwise (fun a b => compare a b = .lt)) :
    (place a l).Pairwise (fun a b => compare a b = .lt) := by
  induction l with
  | nil => simp [place]
  | cons b rest ih =>
    have hb : ∀ {x : α}, x ∈ rest → compare b x = .lt := List.rel_of_pairwise_cons h
    simp only [place]
    split
    · rename_i lt
      refine List.pairwise_cons.mpr ⟨fun x hx => ?_, h⟩
      rcases List.mem_cons.mp hx with rfl | hx
      · exact lt
      · exact Std.TransCmp.lt_trans lt (hb hx)
    · exact h
    · rename_i gt
      refine List.pairwise_cons.mpr ⟨fun x hx => ?_, ih h.of_cons⟩
      rcases mem_place_imp hx with rfl | hx
      · exact Std.OrientedCmp.lt_of_gt gt
      · exact hb hx

def insert [Std.TransOrd α] (s : SortedSet α) (a : α) : SortedSet α :=
  ⟨place a s.toList, place_ascending a s.ascending⟩

def ofList [Std.TransOrd α] (l : List α) : SortedSet α := l.foldl insert empty

end SortedSet
end EcsPlan
