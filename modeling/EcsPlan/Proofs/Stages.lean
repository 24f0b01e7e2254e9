import EcsPlan.Outcome

namespace EcsPlan.Outcome
variable {α β : Type}

@[simp] theorem usable_value? (v : α) (ds : List Diagnostic) : (usable v ds).value? = some v := by
  cases ds <;> rfl

@[simp] theorem usable_diagnostics (v : α) (ds : List Diagnostic) :
    (usable v ds).diagnostics = ds := by
  cases ds <;> rfl

@[simp] theorem precededBy_value? (ds : List Diagnostic) (o : Outcome α) :
    (o.precededBy ds).value? = o.value? := by
  cases o with
  | complete v => exact usable_value? v ds
  | degraded v later => rfl
  | rejected later => rfl

@[simp] theorem precededBy_diagnostics (ds : List Diagnostic) (o : Outcome α) :
    (o.precededBy ds).diagnostics = ds ++ o.diagnostics := by
  cases o with
  | complete v => cases ds <;> simp [precededBy, usable, diagnostics]
  | degraded v later => rfl
  | rejected later => rfl

@[simp] theorem map_value? (f : α → β) (o : Outcome α) : (o.map f).value? = o.value?.map f := by
  cases o <;> rfl

@[simp] theorem map_diagnostics (f : α → β) (o : Outcome α) :
    (o.map f).diagnostics = o.diagnostics := by
  cases o <;> rfl

theorem map_usable (f : α → β) (v : α) (ds : List Diagnostic) :
    (usable v ds).map f = usable (f v) ds := by
  cases ds <;> rfl

theorem map_precededBy (f : α → β) (ds : List Diagnostic) (o : Outcome α) :
    (o.precededBy ds).map f = (o.map f).precededBy ds := by
  cases o with
  | complete v => exact map_usable f v ds
  | degraded v later => rfl
  | rejected later => rfl

theorem precededBy_nil (o : Outcome α) : o.precededBy [] = o := by
  cases o <;> rfl

theorem usable_precededBy (earlier : List Diagnostic) (v : α) (ds : List Diagnostic) :
    (usable v ds).precededBy earlier = usable v (earlier ++ ds) := by
  cases ds with
  | nil => rw [List.append_nil]; rfl
  | cons d later => cases earlier <;> rfl

theorem precededBy_precededBy (first second : List Diagnostic) (o : Outcome α) :
    (o.precededBy first).precededBy second = o.precededBy (second ++ first) := by
  cases o with
  | complete v => exact usable_precededBy second v first
  | degraded v later => simp only [precededBy, List.append_assoc]
  | rejected later => simp only [precededBy, List.append_assoc]

theorem map_map {γ : Type} (f : α → β) (g : β → γ) (o : Outcome α) :
    (o.map f).map g = o.map fun v => g (f v) := by
  cases o <;> rfl

theorem map_id (o : Outcome α) : o.map id = o := by
  cases o <;> rfl

theorem map_statusText (f : α → β) (o : Outcome α) : (o.map f).statusText = o.statusText := by
  cases o <;> rfl

theorem not_isRejected_iff (o : Outcome α) :
    o.isRejected = false ↔ ∃ v, o.value? = some v := by
  cases o <;> simp [isRejected, value?]

theorem isRejected_iff (o : Outcome α) : o.isRejected = true ↔ o.value? = none := by
  cases o <;> simp [isRejected, value?]

def Settled : Outcome α → Prop
  | .complete _ => True
  | .degraded _ ds | .rejected ds => ds ≠ []

theorem usable_settled (v : α) (ds : List Diagnostic) : (usable v ds).Settled := by
  cases ds <;> simp [usable, Settled]

theorem precededBy_settled (ds : List Diagnostic) {o : Outcome α} (settled : o.Settled) :
    (o.precededBy ds).Settled := by
  cases o with
  | complete v => exact usable_settled v ds
  | degraded v later => simp_all [precededBy, Settled]
  | rejected later => simp_all [precededBy, Settled]

theorem map_settled (f : α → β) {o : Outcome α} (settled : o.Settled) : (o.map f).Settled := by
  cases o <;> exact settled

theorem complete_iff {o : Outcome α} (settled : o.Settled) (v : α) :
    o = .complete v ↔ o.value? = some v ∧ o.diagnostics = [] := by
  cases o <;> simp_all [Settled, value?, diagnostics]

theorem eq_usable {o : Outcome α} (settled : o.Settled) {v : α} (value : o.value? = some v) :
    o = usable v o.diagnostics := by
  cases o with
  | complete w => simp_all [value?, diagnostics, usable]
  | degraded w ds =>
    cases ds with
    | nil => exact False.elim (settled rfl)
    | cons d later => simp_all [value?, diagnostics, usable]
  | rejected ds => contradiction

/-- What stages build: a value with what they have to report, or at least one report. -/
theorem settled_iff (o : Outcome α) :
    o.Settled ↔ (∃ v ds, o = usable v ds) ∨ ∃ ds, ds ≠ [] ∧ o = .rejected ds := by
  constructor
  · intro settled
    cases value : o.value? with
    | some v => exact .inl ⟨v, _, eq_usable settled value⟩
    | none =>
      obtain ⟨ds, rfl⟩ : ∃ ds, o = .rejected ds := by cases o <;> simp_all [value?]
      exact .inr ⟨ds, settled, rfl⟩
  · rintro (⟨v, ds, rfl⟩ | ⟨ds, reported, rfl⟩)
    · exact usable_settled v ds
    · exact reported

theorem statusText_congr {o p : Outcome α} (left : o.Settled) (right : p.Settled)
    (value : o.value? = p.value?) (silent : o.diagnostics = [] ↔ p.diagnostics = []) :
    o.statusText = p.statusText := by
  cases o <;> cases p <;> simp_all [Settled, value?, diagnostics, statusText]

end EcsPlan.Outcome
