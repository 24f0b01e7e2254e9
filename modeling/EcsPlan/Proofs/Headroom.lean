import EcsPlan.Proofs.Assignments

/-!
A higher limit. It lets in the requests that were beyond the old one and nothing else.
They ask for IDs above all that were handed out, so they neither take one away nor
leave room for one that was not there.
-/
namespace EcsPlan

def TypeDecl.asksWithin (d : TypeDecl) (maxId : UInt32) : Bool := d.manualId.all (· ≤ maxId)

theorem asksWithin_iff {d : TypeDecl} {maxId : UInt32} :
    d.asksWithin maxId = true ↔ ∀ id, d.manualId = some id → id ≤ maxId := by
  simp [TypeDecl.asksWithin, Option.all_eq_true]

section Screened
variable {kind : Kind} {declarations : List TypeDecl}
  (names : ((ofKind kind declarations).map (·.name)).Nodup)
include names

theorem candidatesOf_names (limits : Limits) :
    candidatesOf limits kind declarations = soundOf limits kind declarations := by
  have distinct : ((soundOf limits kind declarations).map (·.name)).Nodup :=
    (List.filter_sublist.map _).nodup names
  rw [candidatesOf_eq, List.filter_eq_self]
  intro d _
  rw [not_isShared_of_nodup distinct]
  rfl

/-- The lower limit leaves out the requests that are beyond it. Where names were shared
    it might also let in a namesake of a declaration that it leaves out. -/
theorem candidatesOf_lower {low high threshold : UInt32} (higher : low ≤ high) :
    candidatesOf ⟨low, threshold⟩ kind declarations =
      (candidatesOf ⟨high, threshold⟩ kind declarations).filter (TypeDecl.asksWithin · low) := by
  rw [candidatesOf_names names, candidatesOf_names names, soundOf, soundOf, List.filter_filter]
  apply List.filter_congr
  intro d _
  rw [Bool.eq_iff_iff, Bool.and_eq_true, asksWithin_iff]
  constructor
  · intro sound
    obtain ⟨rest, within⟩ := sound_iff.mp sound
    exact ⟨within, sound_iff.mpr ⟨rest, fun id asks => UInt32.le_trans (within id asks) higher⟩⟩
  · rintro ⟨within, sound⟩
    exact sound_iff.mpr ⟨(sound_iff.mp sound).1, within⟩

end Screened

section Numbered
variable {kind : Kind} {candidates : List TypeDecl} {low : UInt32}

def grantedBeyond (low : UInt32) (candidates : List TypeDecl) : List Entry :=
  (grantedEntries candidates).filter (low < ·.id)

theorem mem_grantedBeyond {e : Entry} : e ∈ grantedBeyond low candidates ↔
    e ∈ grantedEntries candidates ∧ low < e.id := by
  simp [grantedBeyond]

theorem requesters_within {id : UInt32} (within : id ≤ low) :
    requesters (candidates.filter (TypeDecl.asksWithin · low)) id = requesters candidates id := by
  rw [requesters, List.filter_filter]
  apply List.filter_congr
  intro d _
  by_cases asks : d.manualId = some id <;> simp [TypeDecl.asksWithin, asks, within]

theorem uncontested_within {d : TypeDecl} (within : d.asksWithin low = true) :
    uncontested (candidates.filter (TypeDecl.asksWithin · low)) d = uncontested candidates d := by
  apply uncontested_congr
  intro id asks
  exact requesters_within (asksWithin_iff.mp within id asks)

theorem beyond_owners : ((grantedBeyond low candidates).map (·.owner)).Perm
    ((candidates.filter (uncontested candidates)).filter (!TypeDecl.asksWithin · low)) := by
  have owners : (grantedBeyond low candidates).map (·.owner) =
      ((grantedEntries candidates).map (·.owner)).filter (!TypeDecl.asksWithin · low) := by
    rw [List.filter_map]
    refine congrArg (List.map _) (List.filter_congr fun e granted => ?_)
    rw [Bool.eq_iff_iff]
    simp [TypeDecl.asksWithin, (granted_owner granted).2]
  rw [owners]
  refine ((granted_owners_perm candidates).filter _).trans (List.Perm.of_eq ?_)
  rw [List.filter_filter]
  apply List.filter_congr
  intro d _
  cases asks : d.manualId <;> simp [TypeDecl.asksWithin, asks]

theorem Assigns.extend {entries : List Entry}
    (a : Assigns kind (candidates.filter (TypeDecl.asksWithin · low)) entries)
    (below : ∀ e ∈ entries, e.id ≤ low) :
    Assigns kind candidates (entries ++ grantedBeyond low candidates) where
  ascending := by
    refine List.pairwise_append.mpr ⟨a.ascending, (granted_ascending candidates).filter _, ?_⟩
    intro e old f new
    exact UInt32.lt_of_le_of_lt (below e old) (mem_grantedBeyond.mp new).2
  owners := by
    -- a contest is among requests for one ID, so the limit lets in all of it or nothing
    have within : (candidates.filter (TypeDecl.asksWithin · low)).filter
          (uncontested (candidates.filter (TypeDecl.asksWithin · low))) =
        (candidates.filter (uncontested candidates)).filter (TypeDecl.asksWithin · low) := by
      refine Eq.trans (List.filter_congr fun d inside => ?_) (List.filter_comm ..)
      exact uncontested_within (List.mem_filter.mp inside).2
    have beyond : ((grantedBeyond low candidates).map (·.owner)).Perm _ := beyond_owners
    rw [List.map_append]
    exact ((within ▸ a.owners).append beyond).trans (List.filter_append_perm _ _)
  asked e member := by
    rcases List.mem_append.mp member with old | new
    · exact a.asked e old
    · have granted := (mem_grantedBeyond.mp new).1
      rw [(granted_owner granted).2, Entry.asked, (mem_grantedEntries.mp granted).1]
  ordered := by
    have manual : ofSource .auto (grantedBeyond low candidates) = [] := by
      apply List.filter_eq_nil_iff.mpr
      intro e new
      simp [(mem_grantedEntries.mp (mem_grantedBeyond.mp new).1).1]
    rw [ofSource, List.filter_append, ← ofSource, ← ofSource, manual, List.append_nil]
    exact a.ordered
  dense e auto slot under := by
    obtain ⟨member, source⟩ := mem_ofSource.mp auto
    rw [List.map_append, List.mem_append]
    rcases List.mem_append.mp member with old | new
    · exact .inl (a.dense e (mem_ofSource.mpr ⟨old, source⟩) slot under)
    · rw [(mem_grantedEntries.mp (mem_grantedBeyond.mp new).1).1] at source
      contradiction

end Numbered

/-- A higher limit changes no ID that was handed out. Who is given one in addition had
    asked for one beyond the old limit. -/
theorem registry_of_raised {kind : Kind} {declarations : List TypeDecl}
    {low high threshold : UInt32} {r : Registry}
    (names : ((ofKind kind declarations).map (·.name)).Nodup) (higher : low ≤ high)
    (accepted : (registry ⟨low, threshold⟩ declarations kind).value? = some r) :
    ∃ r' added, (registry ⟨high, threshold⟩ declarations kind).value? = some r' ∧
      r'.entries = r.entries ++ added ∧
      ∀ e ∈ added, e.source = .manual ∧ low < e.id ∧ e.id ≤ high := by
  obtain ⟨_, a, below⟩ := registry_assigns accepted
  rw [candidatesOf_lower names higher] at a
  have extended := a.extend below
  have reached : ∀ e ∈ grantedBeyond low (candidatesOf ⟨high, threshold⟩ kind declarations),
      e.source = .manual ∧ low < e.id ∧ e.id ≤ high := by
    intro e new
    obtain ⟨granted, above⟩ := mem_grantedBeyond.mp new
    obtain ⟨candidate, asks⟩ := granted_owner granted
    have sound := (List.mem_filter.mp (mem_candidatesOf.mp candidate).1).2
    exact ⟨(mem_grantedEntries.mp granted).1, above, (sound_iff.mp sound).2 e.id asks⟩
  refine ⟨_, _, registry_iff_assigns.mpr ⟨extended, ?_⟩, rfl, reached⟩
  intro e member
  rcases List.mem_append.mp member with old | new
  · exact UInt32.le_trans (below e old) higher
  · exact (reached e new).2.2

def ballast : TypeDecl := { name := "Ballast", kind := .component, manualId := some 9 }

theorem gusty_registry_of_raised :
    (registry ⟨3, 64⟩ (ballast :: gusty) .component).value? =
        some (.ofEntries ⟨3, 64⟩ .component gustyEntries) ∧
      ∃ r' added, (registry ⟨10, 64⟩ (ballast :: gusty) .component).value? = some r' ∧
        r'.entries = gustyEntries ++ added ∧
        ∀ e ∈ added, e.source = .manual ∧ 3 < e.id ∧ e.id ≤ 10 := by
  have accepted : (registry ⟨3, 64⟩ (ballast :: gusty) .component).value? =
      some (.ofEntries ⟨3, 64⟩ .component gustyEntries) :=
    registry_iff_assigns.mpr ⟨by decide, by decide⟩
  exact ⟨accepted, registry_of_raised (by decide) (by decide) accepted⟩

/-- The additional entry is that of `ballast`. -/
example : Assigns .component (candidatesOf ⟨10, 64⟩ .component (ballast :: gusty))
    (gustyEntries ++ [⟨ballast, 9, .manual⟩]) := by
  decide

end EcsPlan
