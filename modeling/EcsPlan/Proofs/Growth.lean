import EcsPlan.Proofs.DiscoveryOrder
import EcsPlan.Proofs.Assignments

/-!
One more declaration. If it asks for an ID that is still free, it has that one and
nobody else moves, for what is free lies above all that is filled in. If it asks for
none, it takes its turn in the order of its kind, and those behind it move up.
-/
namespace EcsPlan

section Requests
variable {candidates : List TypeDecl} {x : TypeDecl} {id : UInt32}

theorem requesters_cons (asks : x.manualId ≠ some id) :
    requesters (x :: candidates) id = requesters candidates id :=
  List.filter_cons_of_neg (by simpa using asks)

theorem granted_cons (asks : x.manualId = none) :
    grantedEntries (x :: candidates) = grantedEntries candidates := by
  apply eq_of_ascending (granted_ascending _) (granted_ascending _)
  intro e
  rw [mem_grantedEntries, mem_grantedEntries, requesters_cons (by simp [asks])]

theorem uncontested_cons (asks : x.manualId = some id)
    (sole : ∀ d ∈ candidates, d.manualId ≠ some id) :
    (x :: candidates).filter (uncontested (x :: candidates)) =
      x :: candidates.filter (uncontested candidates) := by
  have own : uncontested (x :: candidates) x = true := by
    apply uncontested_iff.mpr
    intro other same
    have nobody : requesters candidates id = [] := by
      apply List.filter_eq_nil_iff.mpr
      intro d inside
      simpa using sole d inside
    rw [← Option.some.inj (asks.symm.trans same), requesters,
      List.filter_cons_of_pos (by simpa using asks), ← requesters, nobody]
  rw [List.filter_cons_of_pos own]
  refine congrArg (x :: ·) (List.filter_congr fun d inside => ?_)
  apply uncontested_congr
  intro other same
  have apart : x.manualId ≠ some other := by
    rw [asks, ← same]
    exact (sole d inside).symm
  exact requesters_cons apart

end Requests

theorem ascending_split {entries : List Entry} (ascending : entries.Pairwise (·.id < ·.id))
    {id : UInt32} (free : ∀ e ∈ entries, e.id ≠ id) : ∃ low high, entries = low ++ high ∧
      (∀ e ∈ low, e.id < id) ∧ ∀ e ∈ high, id < e.id := by
  induction entries with
  | nil => exact ⟨[], [], rfl, by simp, by simp⟩
  | cons e rest ih =>
    obtain ⟨first, tail⟩ := List.pairwise_cons.mp ascending
    obtain ⟨low, high, split, below, above⟩ :=
      ih tail fun f member => free f (List.mem_cons_of_mem e member)
    have apart := free e List.mem_cons_self
    by_cases lt : e.id < id
    · refine ⟨e :: low, high, by rw [split]; rfl, ?_, above⟩
      intro f member
      rcases List.mem_cons.mp member with rfl | member
      · exact lt
      · exact below f member
    · have gt : id < e.id := UInt32.lt_of_le_of_ne (UInt32.not_lt.mp lt) apart.symm
      refine ⟨[], e :: rest, rfl, by simp, ?_⟩
      intro f member
      rcases List.mem_cons.mp member with rfl | member
      · exact gt
      · exact UInt32.lt_trans gt (first f member)

namespace Assigns
variable {kind : Kind} {candidates : List TypeDecl} {x : TypeDecl}

section Asked
variable {low high : List Entry} {id : UInt32}

/-- Who asks for a free ID has it, and the others keep theirs. -/
theorem insert (a : Assigns kind candidates (low ++ high)) (asks : x.manualId = some id)
    (sole : ∀ d ∈ candidates, d.manualId ≠ some id) (below : ∀ e ∈ low, e.id < id)
    (above : ∀ e ∈ high, id < e.id) :
    Assigns kind (x :: candidates) (low ++ ⟨x, id, .manual⟩ :: high) where
  ascending := by
    obtain ⟨first, second, across⟩ := List.pairwise_append.mp a.ascending
    refine List.pairwise_append.mpr ⟨first, List.pairwise_cons.mpr ⟨above, second⟩, ?_⟩
    intro e left f right
    rcases List.mem_cons.mp right with rfl | right
    · exact below e left
    · exact across e left f right
  owners := by
    rw [uncontested_cons asks sole]
    exact (List.perm_middle.map _).trans (a.owners.cons x)
  asked e member := by
    rcases List.mem_cons.mp (List.perm_middle.mem_iff.mp member) with rfl | member
    · exact asks
    · exact a.asked e member
  ordered := by
    have automatic : ofSource .auto (low ++ ⟨x, id, .manual⟩ :: high) =
        ofSource .auto (low ++ high) := by simp [ofSource]
    rw [automatic]
    exact a.ordered
  dense e auto slot lower := by
    obtain ⟨member, source⟩ := mem_ofSource.mp auto
    have before : e ∈ low ++ high := by
      rcases List.mem_cons.mp (List.perm_middle.mem_iff.mp member) with rfl | before
      · contradiction
      · exact before
    have held := a.dense e (mem_ofSource.mpr ⟨before, source⟩) slot lower
    exact (List.perm_middle.map _).mem_iff.mpr (List.mem_cons_of_mem _ held)

end Asked

section Filled
variable {entries grown : List Entry} (a : Assigns kind candidates entries)
  (b : Assigns kind (x :: candidates) grown) (names : ((x :: candidates).map (·.name)).Nodup)
  (asks : x.manualId = none)
include a b asks

theorem manual_kept : ofSource .manual grown = ofSource .manual entries := by
  rw [← a.granted_eq, ← b.granted_eq, granted_cons asks]

include names

theorem slots_prefix : (ofSource .auto entries).map (·.id.toNat) =
    ((ofSource .auto grown).map (·.id.toNat)).take (ofSource .auto entries).length := by
  have part := (b.fills names).take (ofSource .auto entries).length
  rw [a.manual_kept b asks] at part
  refine (a.fills names.tail).eq_of_length_eq part ?_
  have shorter := congrArg List.length (a.unpinned_eq names.tail)
  have longer := congrArg List.length (b.unpinned_eq names)
  rw [unpinned, List.length_mergeSort, List.length_map] at shorter longer
  rw [List.filter_cons_of_pos (by simp [asks]), List.length_cons] at longer
  rw [List.length_map, List.length_take, List.length_map]
  omega

theorem same_slot {i : Nat} {e : Entry} (here : (ofSource .auto entries)[i]? = some e) :
    ∃ f, (ofSource .auto grown)[i]? = some f ∧ f.id = e.id := by
  have slot : ((ofSource .auto entries).map (·.id.toNat))[i]? = some e.id.toNat := by
    rw [List.getElem?_map, here]
    rfl
  have inside := (List.getElem?_eq_some_iff.mp here).1
  rw [a.slots_prefix b names asks, List.getElem?_take, if_pos inside, List.getElem?_map,
    Option.map_eq_some_iff] at slot
  obtain ⟨f, there, same⟩ := slot
  exact ⟨f, there, UInt32.toNat_inj.mp same⟩

/-- Who is filled in before the new one stays, who is filled in after it moves up. -/
theorem moved_slot {e : Entry} (auto : e ∈ ofSource .auto entries) :
    ∃ f ∈ ofSource .auto grown, f.owner = e.owner ∧
      if kind.order e.owner x = .lt then f.id = e.id else e.id < f.id := by
  obtain ⟨early, late, longer, shorter, before, behind⟩ :=
    mergeSort_cons_split kind.order x (candidates.filter (·.manualId.isNone))
  have owners : (ofSource .auto entries).map (·.owner) = early ++ late :=
    (a.unpinned_eq names.tail).symm.trans shorter
  have grownOwners : (ofSource .auto grown).map (·.owner) = early ++ x :: late := by
    rw [← b.unpinned_eq names, unpinned, List.filter_cons_of_pos (by simp [asks])]
    exact longer
  obtain ⟨i, here⟩ := List.mem_iff_getElem?.mp auto
  obtain ⟨g, there, slot⟩ := a.same_slot b names asks here
  have owner : (early ++ late)[i]? = some e.owner := by
    rw [← owners, List.getElem?_map, here]
    rfl
  -- the new one comes to stand at position early.length, before all of late
  by_cases first : i < early.length
  · rw [List.getElem?_append_left first] at owner
    have same : some g.owner = some e.owner := by
      calc some g.owner
          = ((ofSource .auto grown).map (·.owner))[i]? := by rw [List.getElem?_map, there]; rfl
        _ = early[i]? := by rw [grownOwners, List.getElem?_append_left first]
        _ = some e.owner := owner
    refine ⟨g, List.mem_of_getElem? there, Option.some.inj same, ?_⟩
    rw [if_pos (before e.owner (List.mem_of_getElem? owner))]
    exact slot
  · rw [List.getElem?_append_right (Nat.not_lt.mp first)] at owner
    have next : ((ofSource .auto grown).map (·.owner))[i + 1]? = some e.owner := by
      rw [grownOwners, List.getElem?_append_right (by omega), Nat.succ_sub (Nat.not_lt.mp first)]
      exact owner
    rw [List.getElem?_map, Option.map_eq_some_iff] at next
    obtain ⟨f, after, same⟩ := next
    refine ⟨f, List.mem_of_getElem? after, same, ?_⟩
    rw [if_neg (behind e.owner (List.mem_of_getElem? owner)), ← slot]
    obtain ⟨left, rfl⟩ := List.getElem?_eq_some_iff.mp there
    obtain ⟨right, rfl⟩ := List.getElem?_eq_some_iff.mp after
    exact List.pairwise_iff_getElem.mp (ofSource_ascending .auto b.ascending) i (i + 1) left right
      (Nat.lt_succ_self i)

theorem moved {e : Entry} (member : e ∈ entries) :
    ∃ f ∈ grown, f.owner = e.owner ∧ f.source = e.source ∧
      if e.source = .manual ∨ kind.order e.owner x = .lt then f.id = e.id else e.id < f.id := by
  cases source : e.source with
  | manual =>
    have kept := mem_ofSource.mpr ⟨member, source⟩
    rw [← a.manual_kept b asks] at kept
    exact ⟨e, (mem_ofSource.mp kept).1, rfl, source, by simp⟩
  | auto =>
    obtain ⟨f, filled, owner, slot⟩ :=
      a.moved_slot b names asks (mem_ofSource.mpr ⟨member, source⟩)
    obtain ⟨inside, auto⟩ := mem_ofSource.mp filled
    exact ⟨f, inside, owner, auto, by simpa using slot⟩

end Filled
end Assigns

theorem ofEntries_mono (limits : Limits) (kind : Kind) {entries others : List Entry}
    (sub : entries ⊆ others) :
    (Registry.ofEntries limits kind entries).width.bits ≤
        (Registry.ofEntries limits kind others).width.bits ∧
      ((Registry.ofEntries limits kind entries).customStorage = true →
        (Registry.ofEntries limits kind others).customStorage = true) := by
  have wide : (Mask.Width.ofIds (entries.map (·.id))).bits ≤
      (Mask.Width.ofIds (others.map (·.id))).bits := Mask.Width.ofIds_mono (List.map_subset _ sub)
  refine ⟨wide, fun custom => ?_⟩
  simp only [Registry.ofEntries, Bool.and_eq_true, decide_eq_true_eq] at custom ⊢
  exact ⟨custom.1, Nat.lt_of_lt_of_le custom.2 wide⟩

section First
variable {limits : Limits} {kind : Kind} {declarations : List TypeDecl} {x : TypeDecl}
  {r : Registry} (accepted : (registry limits declarations kind).value? = some r)
  (kindly : x.kind = kind) (sound : x.sound limits = true)
  (fresh : ∀ d ∈ ofKind kind declarations, d.name ≠ x.name)
include accepted kindly sound fresh

theorem registry_of_asked {id : UInt32} (asks : x.manualId = some id)
    (free : ∀ e ∈ r.entries, e.id ≠ id)
    (sole : ∀ d ∈ ofKind kind declarations, d.manualId ≠ some id) :
    ∃ low high, r.entries = low ++ high ∧ (registry limits (x :: declarations) kind).value? =
      some (.ofEntries limits kind (low ++ ⟨x, id, .manual⟩ :: high)) := by
  obtain ⟨_, a, below⟩ := registry_assigns accepted
  obtain ⟨low, high, split, lower, upper⟩ := ascending_split a.ascending free
  rw [split] at a below
  refine ⟨low, high, split, ?_⟩
  rw [registry_iff_assigns, candidatesOf_cons kindly sound fresh]
  refine ⟨a.insert asks (fun d inside => sole d (candidate_of_kind inside)) lower upper, ?_⟩
  intro e member
  rcases List.mem_cons.mp (List.perm_middle.mem_iff.mp member) with rfl | old
  · exact (sound_iff.mp sound).2 id asks
  · exact below e old

theorem registry_of_filled (asks : x.manualId = none) {r' : Registry}
    (grown : (registry limits (x :: declarations) kind).value? = some r') {e : Entry}
    (member : e ∈ r.entries) : ∃ f ∈ r'.entries, f.owner = e.owner ∧ f.source = e.source ∧
      if e.source = .manual ∨ kind.order e.owner x = .lt then f.id = e.id else e.id < f.id := by
  obtain ⟨_, a, _⟩ := registry_assigns accepted
  obtain ⟨_, b, _⟩ := registry_assigns grown
  have names := candidate_names_nodup limits kind (x :: declarations)
  rw [candidatesOf_cons kindly sound fresh] at b names
  exact a.moved b names asks member

end First

/-- One more sound declaration with a name of its own. A free ID that it asks for is
    its own and moves nobody. If it asks for none, those who do and those who come
    before it in the order of the kind stay; the others move up. -/
theorem registry_of_grown {limits : Limits} {kind : Kind} {before later : List TypeDecl}
    {x : TypeDecl} {r : Registry}
    (accepted : (registry limits (before ++ later) kind).value? = some r)
    (kindly : x.kind = kind) (sound : x.sound limits = true)
    (fresh : ∀ d ∈ ofKind kind (before ++ later), d.name ≠ x.name) :
    let grown := registry limits (before ++ x :: later) kind
    (∀ id, x.manualId = some id → (∀ e ∈ r.entries, e.id ≠ id) →
      (∀ d ∈ ofKind kind (before ++ later), d.manualId ≠ some id) →
      ∃ r' low high, grown.value? = some r' ∧ r.entries = low ++ high ∧
        r'.entries = low ++ ⟨x, id, .manual⟩ :: high ∧ r'.kind = r.kind ∧
        r.width.bits ≤ r'.width.bits ∧ (r.customStorage = true → r'.customStorage = true)) ∧
    (x.manualId = none → ∀ r', grown.value? = some r' →
      ∀ e ∈ r.entries, ∃ f ∈ r'.entries, f.owner = e.owner ∧ f.source = e.source ∧
        if e.source = .manual ∨ kind.order e.owner x = .lt then f.id = e.id else e.id < f.id) := by
  intro grown
  have first : grown.value? = (registry limits (x :: (before ++ later)) kind).value? :=
    (registry_alike limits List.perm_middle kind).value
  rw [first]
  constructor
  · intro id asks free sole
    obtain ⟨low, high, split, value⟩ :=
      registry_of_asked accepted kindly sound fresh asks free sole
    have sub : r.entries ⊆ low ++ ⟨x, id, .manual⟩ :: high := fun e old =>
      List.perm_middle.mem_iff.mpr (List.mem_cons_of_mem _ (split ▸ old))
    obtain ⟨wide, custom⟩ := ofEntries_mono limits kind sub
    obtain ⟨form, _⟩ := registry_assigns accepted
    have own : r.kind = kind := congrArg Registry.kind form
    rw [← form] at wide custom
    exact ⟨_, low, high, value, split, rfl, own.symm, wide, custom⟩
  · intro asks r' value e member
    exact registry_of_filled accepted kindly sound fresh asks value member

def balloon : TypeDecl := { name := "Balloon", kind := .component, manualId := some 7 }

def glider : TypeDecl := { name := "Glider", kind := .component, alignment := 2 }

def gliderEntries : List Entry := [⟨mass, 0, .auto⟩, ⟨glider, 1, .auto⟩, ⟨kite, 2, .auto⟩]

theorem gusty_grown :
    (∃ r' low high, (registry {} [drag, balloon, kite, lift, mass] .component).value? = some r' ∧
      gustyEntries = low ++ high ∧ r'.entries = low ++ ⟨balloon, 7, .manual⟩ :: high) ∧
    (registry {} [drag, kite, glider, lift, mass] .component).value? =
        some (.ofEntries {} .component gliderEntries) ∧
      (∃ f ∈ gliderEntries, f.owner = mass ∧ f.id = 0) ∧
        ∃ f ∈ gliderEntries, f.owner = kite ∧ 1 < f.id := by
  have early : (registry {} ([drag] ++ [kite, lift, mass]) .component).value? =
      some (.ofEntries {} .component gustyEntries) := gusty_registry
  have late : (registry {} ([drag, kite] ++ [lift, mass]) .component).value? =
      some (.ofEntries {} .component gustyEntries) := gusty_registry
  obtain ⟨r', low, high, value, split, entries, _⟩ :=
    (registry_of_grown early (x := balloon) rfl (by decide) (by decide)).1 7 rfl (by decide)
      (by decide)
  have grown : (registry {} [drag, kite, glider, lift, mass] .component).value? =
      some (.ofEntries {} .component gliderEntries) :=
    registry_iff_assigns.mpr ⟨by decide, by decide⟩
  have moved := (registry_of_grown late (x := glider) rfl (by decide) (by decide)).2 rfl _ grown
  obtain ⟨f, first, owner, _, kept⟩ := moved ⟨mass, 0, .auto⟩ (by decide)
  obtain ⟨g, second, other, _, higher⟩ := moved ⟨kite, 1, .auto⟩ (by decide)
  rw [if_pos (by decide)] at kept
  rw [if_neg (by decide)] at higher
  exact ⟨⟨r', low, high, value, split, entries⟩, grown, ⟨f, first, owner, kept⟩,
    ⟨g, second, other, higher⟩⟩

end EcsPlan
