import EcsPlan.SortedSet
import Mathlib.Data.List.Nodup

namespace EcsPlan
namespace SortedSet
variable {α : Type} [Ord α]

theorem ext_toList {s t : SortedSet α} (same : s.toList = t.toList) : s = t := by
  cases s; cases t
  simp_all

theorem isEmpty_iff (s : SortedSet α) : s.isEmpty = true ↔ ∀ x, x ∉ s.toList := by
  simp [isEmpty, List.isEmpty_iff, List.eq_nil_iff_forall_not_mem]

theorem mem_place_iff [Std.LawfulEqOrd α] {a x : α} {l : List α} :
    x ∈ place a l ↔ x = a ∨ x ∈ l := by
  induction l with
  | nil => simp [place]
  | cons b rest ih =>
    simp only [place]
    split
    · simp
    · rename_i eq
      have same : a = b := Std.LawfulEqCmp.eq_of_compare eq
      simp [same]
    · simp only [List.mem_cons, ih]
      exact or_left_comm

variable [Std.TransOrd α]

theorem nodup (s : SortedSet α) : s.toList.Nodup := by
  apply s.ascending.imp
  intro a b lt same
  have self : compare a a = .eq := Std.ReflCmp.compare_self
  rw [← same, self] at lt
  contradiction

theorem ext_mem {s t : SortedSet α} (same : ∀ x, x ∈ s.toList ↔ x ∈ t.toList) : s = t := by
  refine ext_toList (List.Perm.eq_of_pairwise ?_ s.ascending t.ascending ?_)
  · intro a b _ _ ab ba
    exact False.elim (Std.OrientedCmp.not_lt_of_lt ab ba)
  · exact (List.perm_ext_iff_of_nodup s.nodup t.nodup).mpr same

variable [Std.LawfulEqOrd α]

theorem mem_foldl_insert {l : List α} {s : SortedSet α} {x : α} :
    x ∈ (l.foldl insert s).toList ↔ x ∈ s.toList ∨ x ∈ l := by
  induction l generalizing s with
  | nil => simp
  | cons a rest ih =>
    simp only [List.foldl_cons, ih, insert, mem_place_iff, List.mem_cons]
    rw [or_comm (a := x = a), or_assoc]

@[simp] theorem mem_ofList {l : List α} {x : α} : x ∈ (ofList l).toList ↔ x ∈ l := by
  simp [ofList, mem_foldl_insert, empty]

theorem ofList_congr {l m : List α} (same : ∀ x, x ∈ l ↔ x ∈ m) : ofList l = ofList m := by
  apply ext_mem
  intro x
  simp [same]

end SortedSet

section Sorting
variable {α : Type} (cmp : α → α → Ordering) [Std.TransCmp cmp]

theorem isLE_total (a b : α) : ((cmp a b).isLE || (cmp b a).isLE) = true := by
  have swap : cmp b a = (cmp a b).swap := Std.OrientedCmp.eq_swap
  rw [swap]
  cases cmp a b <;> rfl

theorem mergeSort_ascending (l : List α) :
    (l.mergeSort fun a b => (cmp a b).isLE).Pairwise fun a b => (cmp a b).isLE :=
  List.pairwise_mergeSort (fun _ _ _ => Std.TransCmp.isLE_trans) (isLE_total cmp) l

/-- One more thing comes to stand before all that are not less and moves nothing else. -/
theorem mergeSort_cons_split (a : α) (l : List α) : ∃ early late,
    ((a :: l).mergeSort fun a b => (cmp a b).isLE) = early ++ a :: late ∧
      (l.mergeSort fun a b => (cmp a b).isLE) = early ++ late ∧
      (∀ b ∈ early, cmp b a = .lt) ∧ ∀ b ∈ late, cmp b a ≠ .lt := by
  obtain ⟨early, late, longer, shorter, before⟩ :=
    List.mergeSort_cons (fun _ _ _ => Std.TransCmp.isLE_trans) (isLE_total cmp) a l
  refine ⟨early, late, longer, shorter, ?_, ?_⟩
  · intro b member
    have greater : cmp a b = .gt := by simpa using before b member
    exact Std.OrientedCmp.lt_of_gt greater
  · intro b member less
    have sorted := mergeSort_ascending cmp (a :: l)
    rw [longer] at sorted
    have order := (List.pairwise_cons.mp (List.pairwise_append.mp sorted).2.1).1 b member
    rw [Std.OrientedCmp.gt_of_lt less] at order
    contradiction

theorem mergeSort_eq_of_perm {l m : List α} (perm : l.Perm m)
    (apart : ∀ a ∈ l, ∀ b ∈ l, cmp a b = .eq → a = b) :
    (l.mergeSort fun a b => (cmp a b).isLE) = m.mergeSort fun a b => (cmp a b).isLE := by
  refine List.Perm.eq_of_pairwise ?_ (mergeSort_ascending cmp l) (mergeSort_ascending cmp m) ?_
  · intro a b left right ab ba
    have inL : a ∈ l := List.mem_mergeSort.mp left
    have inM : b ∈ l := perm.mem_iff.mpr (List.mem_mergeSort.mp right)
    exact apart a inL b inM (Std.OrientedCmp.isLE_antisymm ab ba)
  · exact (List.mergeSort_perm _ _).trans (perm.trans (List.mergeSort_perm _ _).symm)

theorem mergeSort_filter_eq (a : α) (l : List α) :
    (l.mergeSort fun a b => (cmp a b).isLE).filter (cmp a · = .eq) =
      l.filter (cmp a · = .eq) := by
  have equal : ∀ b ∈ l.filter (cmp a · = .eq), cmp a b = .eq := fun b member =>
    of_decide_eq_true (List.mem_filter.mp member).2
  have tied : (l.filter (cmp a · = .eq)).Pairwise fun b c => (cmp b c).isLE := by
    apply List.pairwise_of_forall_mem_list
    intro b left c right
    have back : cmp b a = .eq := Std.OrientedCmp.eq_symm (equal b left)
    rw [Std.TransCmp.congr_left back, equal c right]
    rfl
  have kept := List.sublist_mergeSort (fun _ _ _ => Std.TransCmp.isLE_trans) (isLE_total cmp)
    tied List.filter_sublist
  have inside := kept.filter (cmp a · = .eq)
  rw [List.filter_filter] at inside
  simp only [Bool.and_self] at inside
  exact (inside.eq_of_length ((List.mergeSort_perm l _).filter _).length_eq.symm).symm

theorem mem_of_filter_eq {l m : List α}
    (same : ∀ a, l.filter (cmp a · = .eq) = m.filter (cmp a · = .eq)) {a : α} (member : a ∈ l) :
    a ∈ m := by
  have self : cmp a a = .eq := Std.ReflCmp.compare_self
  have kept : a ∈ l.filter (cmp a · = .eq) := List.mem_filter.mpr ⟨member, decide_eq_true self⟩
  rw [same] at kept
  exact List.mem_of_mem_filter kept

theorem eq_of_filter_eq {l m : List α} (sorted : l.Pairwise fun a b => (cmp a b).isLE)
    (others : m.Pairwise fun a b => (cmp a b).isLE)
    (same : ∀ a, l.filter (cmp a · = .eq) = m.filter (cmp a · = .eq)) : l = m := by
  induction l generalizing m with
  | nil =>
    refine (List.eq_nil_iff_forall_not_mem.mpr fun b member => ?_).symm
    exact List.not_mem_nil (mem_of_filter_eq cmp (fun a => (same a).symm) member)
  | cons a rest ih =>
    cases m with
    | nil => exact False.elim (List.not_mem_nil (mem_of_filter_eq cmp same List.mem_cons_self))
    | cons b later =>
      have self : cmp a a = .eq := Std.ReflCmp.compare_self
      -- each head is a member of the other list, so neither is beyond the other
      have forth : (cmp a b).isLE = true := by
        rcases List.mem_cons.mp (mem_of_filter_eq cmp (fun a => (same a).symm)
          List.mem_cons_self : b ∈ a :: rest) with rfl | member
        · simp [self]
        · exact List.rel_of_pairwise_cons sorted member
      have back : (cmp b a).isLE = true := by
        rcases List.mem_cons.mp (mem_of_filter_eq cmp same List.mem_cons_self : a ∈ b :: later)
          with rfl | member
        · simp [self]
        · exact List.rel_of_pairwise_cons others member
      have level : cmp a b = .eq := Std.OrientedCmp.isLE_antisymm forth back
      have heads := same a
      rw [List.filter_cons_of_pos (by simpa using self),
        List.filter_cons_of_pos (by simpa using level)] at heads
      obtain ⟨rfl, _⟩ := List.cons.inj heads
      refine congrArg (a :: ·) (ih sorted.of_cons others.of_cons fun d => ?_)
      have tails := same d
      by_cases tied : cmp d a = .eq <;> simpa [List.filter_cons, tied] using tails

end Sorting

theorem find?_key_iff {α κ : Type} [DecidableEq κ] {key : α → κ} {l : List α}
    (distinct : (l.map key).Nodup) {k : κ} {a : α} :
    l.find? (key · = k) = some a ↔ a ∈ l ∧ key a = k := by
  constructor
  · intro found
    exact ⟨List.mem_of_find?_eq_some found, by simpa using List.find?_some found⟩
  · intro borne
    obtain ⟨member, rfl⟩ := borne
    cases found : l.find? (key · = key a) with
    | none => simpa using List.find?_eq_none.mp found a member
    | some b =>
      have same : key b = key a := by simpa using List.find?_some found
      rw [List.inj_on_of_nodup_map distinct (List.mem_of_find?_eq_some found) member same]

end EcsPlan
