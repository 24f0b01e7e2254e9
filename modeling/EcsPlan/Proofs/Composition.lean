import EcsPlan.Plan
import EcsPlan.Proofs.Stages
import Mathlib.Logic.Relation

namespace EcsPlan.Outcome

/-- The steps from outcomes over `α` to outcomes over `β`, the first one outermost. A change
    may lead to another type. -/
inductive Steps : Type → Type → Type 1 where
  | done {α : Type} : Steps α α
  | precede {α β : Type} (earlier : List Diagnostic) (rest : Steps α β) : Steps α β
  | map {α β γ : Type} (f : α → β) (rest : Steps β γ) : Steps α γ

namespace Steps

def run {α β : Type} : Steps α β → Outcome α → Outcome β
  | .done, o => o
  | .precede earlier rest, o => rest.run (o.precededBy earlier)
  | .map f rest, o => rest.run (o.map f)

def change {α β : Type} : Steps α β → α → β
  | .done => id
  | .precede _ rest => rest.change
  | .map f rest => rest.change ∘ f

/-- What the steps put in front, one list for each step that does. -/
def reports {α β : Type} : Steps α β → List (List Diagnostic)
  | .done => []
  | .precede earlier rest => earlier :: rest.reports
  | .map _ rest => rest.reports

def append {α β γ : Type} : Steps α β → Steps β γ → Steps α γ
  | .done, later => later
  | .precede earlier rest, later => .precede earlier (rest.append later)
  | .map f rest, later => .map f (rest.append later)

variable {α β γ : Type}

/-- A change of the value trades places with the reports that are put in front next. -/
inductive Swap : Steps α β → Steps α β → Prop where
  | swap {γ δ : Type} (before : Steps α γ) (f : γ → δ) (earlier : List Diagnostic)
      (after : Steps δ β) :
      Swap (before.append (.map f (.precede earlier after)))
        (before.append (.precede earlier (.map f after)))

theorem run_append (before : Steps α β) (after : Steps β γ) (o : Outcome α) :
    (before.append after).run o = after.run (before.run o) := by
  induction before with
  | done => rfl
  | precede earlier rest ih => exact ih after (o.precededBy earlier)
  | map f rest ih => exact ih after (o.map f)

/-- All steps together are one change of the value, and then one list put in front. -/
theorem run_eq (steps : Steps α β) (o : Outcome α) :
    steps.run o = (o.map steps.change).precededBy steps.reports.reverse.flatten := by
  induction steps with
  | done => exact ((precededBy_nil (o.map id)).trans (map_id o)).symm
  | precede earlier rest ih =>
    -- the rest puts its reports in front later, so they come to stand before `earlier`
    calc rest.run (o.precededBy earlier)
      _ = ((o.precededBy earlier).map rest.change).precededBy rest.reports.reverse.flatten :=
        ih (o.precededBy earlier)
      _ = (o.map rest.change).precededBy (rest.reports.reverse.flatten ++ earlier) := by
        rw [map_precededBy, precededBy_precededBy]
      _ = (o.map rest.change).precededBy (earlier :: rest.reports).reverse.flatten := by
        simp only [List.reverse_cons, List.flatten_append, List.flatten_singleton]
  | map f rest ih =>
    calc rest.run (o.map f)
      _ = ((o.map f).map rest.change).precededBy rest.reports.reverse.flatten := ih (o.map f)
      _ = (o.map (rest.change ∘ f)).precededBy rest.reports.reverse.flatten := by
        rw [map_map]
        rfl

theorem run_swap {steps others : Steps α β} (swap : Swap steps others) (o : Outcome α) :
    steps.run o = others.run o := by
  obtain ⟨before, f, earlier, after⟩ := swap
  rw [run_append, run_append]
  exact congrArg after.run (map_precededBy f earlier (before.run o)).symm

theorem run_swaps {steps others : Steps α β} (swaps : Relation.EqvGen Swap steps others)
    (o : Outcome α) : steps.run o = others.run o := by
  induction swaps with
  | rel _ _ swap => exact run_swap swap o
  | refl _ => rfl
  | symm _ _ _ ih => exact ih.symm
  | trans _ _ _ _ _ first second => exact first.trans second

theorem run_settled (steps : Steps α β) {o : Outcome α} (settled : o.Settled) :
    (steps.run o).Settled := by
  rw [run_eq]
  exact precededBy_settled _ (map_settled _ settled)

end Steps

section Composition
variable {α β : Type}

/-- An outcome that is told by its value and its diagnostics, where it has a value. -/
structure Told (o : Outcome α) : Prop where
  complete : ∀ v, o = .complete v ↔ o.value? = some v ∧ o.diagnostics = []
  usable : ∀ v, o.value? = some v → o = usable v o.diagnostics

theorem Settled.told {o : Outcome α} (settled : o.Settled) : o.Told where
  complete := complete_iff settled
  usable _ value := eq_usable settled value

/-- Steps in any number and order neither make nor undo a rejection. They change the value as
    their changes do one after the other, and put their reports in front, the last ones foremost;
    where a change stands among the reports makes no difference. What stages build is told by its
    value and its diagnostics, and so is what comes of it after each step. -/
theorem steps_lose_nothing (start : Outcome α) (steps : Steps α β) :
    ((steps.run start).isRejected = true ↔ start.isRejected = true) ∧
      (steps.run start).value? = start.value?.map steps.change ∧
      (steps.run start).diagnostics = steps.reports.reverse.flatten ++ start.diagnostics ∧
      (∀ others, Relation.EqvGen Steps.Swap steps others → steps.run start = others.run start) ∧
      ((∃ v ds, start = usable v ds) ∨ (∃ ds, ds ≠ [] ∧ start = .rejected ds) →
        ∀ {γ : Type} (before : Steps α γ) (after : Steps γ β), before.append after = steps →
          steps.run start = after.run (before.run start) ∧ (before.run start).Told) := by
  have value : (steps.run start).value? = start.value?.map steps.change := by
    rw [steps.run_eq, precededBy_value?, map_value?]
  have diagnostics :
      (steps.run start).diagnostics = steps.reports.reverse.flatten ++ start.diagnostics := by
    rw [steps.run_eq, precededBy_diagnostics, map_diagnostics]
  refine ⟨?_, value, diagnostics, fun _ swaps => Steps.run_swaps swaps start, ?_⟩
  · rw [isRejected_iff, isRejected_iff, value, Option.map_eq_none_iff]
  · -- no step undoes that the start is settled, so it is enough to know it of the start
    rintro built _ before after rfl
    have settled := (settled_iff start).mpr built
    exact ⟨before.run_append after start, (before.run_settled settled).told⟩

/-- A registry is what two steps make of a numbering. -/
example (limits : Limits) (declarations : List TypeDecl) (kind : Kind) :
    registry limits declarations kind =
      (Steps.map (.ofEntries limits kind)
        (.precede (screen limits kind declarations).diagnostics .done)).run
        (numbering kind limits.maxId (screen limits kind declarations).candidates) :=
  rfl

end Composition

def hazeTag : TypeDecl := { name := "Haze", kind := .tag }

def dewShared : Diagnostic := (Finding.sharedName .tag "Dew" 2 none).diagnostic

def rimeContested : Diagnostic := (Finding.contestedId .tag 4 ["Rime", "Sleet"] none).diagnostic

def iceUnresolved : Diagnostic := (Finding.unresolved "Cold" ["Ice"] none).diagnostic

def hazeLookup : Steps Registry (Option UInt32) :=
  .map (·.id? "Haze") (.precede [iceUnresolved, dewShared] .done)

def hazeSteps : Steps (List Entry) (Option UInt32) :=
  .precede [] (.map (.ofEntries {} .tag) (.precede [rimeContested] hazeLookup))

def hazeStepsLate : Steps (List Entry) (Option UInt32) :=
  .precede [] (.precede [rimeContested] (.map (.ofEntries {} .tag) hazeLookup))

theorem haze_steps_lose_nothing :
    let start : Outcome (List Entry) := usable [⟨hazeTag, 3, .manual⟩] []
    let early : Steps (List Entry) Registry := .precede [] (.map (.ofEntries {} .tag) .done)
    Relation.EqvGen Steps.Swap hazeSteps hazeStepsLate ∧
      early.append (.precede [rimeContested] hazeLookup) = hazeSteps ∧
      early.run start = .complete (.ofEntries {} .tag [⟨hazeTag, 3, .manual⟩]) ∧
      (hazeSteps.run start).value? = some (some 3) ∧
      (hazeSteps.run start).diagnostics = [iceUnresolved, dewShared, rimeContested] ∧
      hazeSteps.run start = hazeStepsLate.run start := by
  intro start early
  have swaps : Relation.EqvGen Steps.Swap hazeSteps hazeStepsLate :=
    .rel _ _ (.swap (.precede [] .done) (Registry.ofEntries {} .tag) [rimeContested] hazeLookup)
  have split : early.append (.precede [rimeContested] hazeLookup) = hazeSteps := rfl
  obtain ⟨_, value, diagnostics, same, points⟩ := steps_lose_nothing start hazeSteps
  obtain ⟨_, told⟩ := points (.inl ⟨_, _, rfl⟩) early _ split
  exact ⟨swaps, split, (told.complete _).mpr ⟨rfl, rfl⟩, value.trans rfl, diagnostics.trans rfl,
    same _ swaps⟩

end EcsPlan.Outcome
