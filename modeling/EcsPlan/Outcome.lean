import EcsPlan.Diagnostic

namespace EcsPlan

inductive Outcome (α : Type) where
  | complete (value : α)
  | degraded (value : α) (diagnostics : List Diagnostic)
  | rejected (diagnostics : List Diagnostic)
  deriving DecidableEq, Repr

namespace Outcome
variable {α β : Type}

def usable (value : α) : List Diagnostic → Outcome α
  | [] => .complete value
  | d :: ds => .degraded value (d :: ds)

def value? : Outcome α → Option α
  | .complete v | .degraded v _ => some v
  | .rejected _ => none

def diagnostics : Outcome α → List Diagnostic
  | .complete _ => []
  | .degraded _ ds | .rejected ds => ds

def isRejected : Outcome α → Bool
  | .rejected _ => true
  | _ => false

def precededBy (earlier : List Diagnostic) : Outcome α → Outcome α
  | .complete v => usable v earlier
  | .degraded v ds => .degraded v (earlier ++ ds)
  | .rejected ds => .rejected (earlier ++ ds)

def map (f : α → β) : Outcome α → Outcome β
  | .complete v => .complete (f v)
  | .degraded v ds => .degraded (f v) ds
  | .rejected ds => .rejected ds

def statusText : Outcome α → String
  | .complete _ => "ok"
  | .degraded .. => "partial_ok"
  | .rejected _ => "rejected"

end Outcome
end EcsPlan
