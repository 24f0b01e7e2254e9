import EcsPlan.Diagnostic
import EcsPlan.SortedSet

namespace EcsPlan
namespace Guid

def isHexDigit (c : Char) : Bool :=
  c.isDigit || ('a' ≤ c && c ≤ 'f') || ('A' ≤ c && c ≤ 'F')

def grouped : List Nat → List Char → Bool
  | [], cs => cs.isEmpty
  | [n], cs => cs.length = n && cs.all isHexDigit
  | n :: ns, cs =>
    (cs.take n).all isHexDigit && (cs.drop n).head? = some '-' && grouped ns (cs.drop (n + 1))

def hyphenated (cs : List Char) : Bool := grouped [8, 4, 4, 4, 12] cs

def braced : List Char → Bool
  | '{' :: cs => cs.getLast? = some '}' && hyphenated cs.dropLast
  | _ => false

def urn : List Char := "urn:uuid:".toList

/-- The letters of the marker count in either case. -/
def asUrn (cs : List Char) : Bool :=
  (cs.take urn.length).map Char.toLower = urn && hyphenated (cs.drop urn.length)

def accepts (cs : List Char) : Bool :=
  grouped [32] cs || hyphenated cs || braced cs || asUrn cs

end Guid

def TypeDecl.defects (limits : Limits) (d : TypeDecl) : List Defect :=
  (if d.wellFormed then [] else [.structural]) ++
  (if (d.kind = .component ∨ d.kind = .tag) ∧ ¬ d.unmanaged then [.notUnmanaged] else []) ++
  (if d.kind = .tag ∧ d.hasFields then [.hasFields] else []) ++
  (if d.nestedInGeneric then [.nestedInGeneric] else []) ++
  (match d.guid with
    | some guid => if Guid.accepts guid.toList then [] else [.malformedGuid guid]
    | none => []) ++
  (match d.manualId with
    | some id => if limits.maxId < id then [.idAboveLimit id limits.maxId] else []
    | none => [])

def TypeDecl.sound (limits : Limits) (d : TypeDecl) : Bool := (d.defects limits).isEmpty

def TypeDecl.defectReports (limits : Limits) (d : TypeDecl) : List Diagnostic :=
  (d.defects limits).map fun cause => (Finding.defect d.kind d.name d.place cause).diagnostic

/-- A report on several declarations stands at the first that has a place. -/
def firstPlace (group : List TypeDecl) : Option Place := group.findSome? (·.place)

def bearers (name : String) (declarations : List TypeDecl) : List TypeDecl :=
  declarations.filter (·.name = name)

def isShared (declarations : List TypeDecl) (name : String) : Bool :=
  decide (1 < (bearers name declarations).length)

def sharedNames (declarations : List TypeDecl) : SortedSet String :=
  .ofList ((declarations.map (·.name)).filter (isShared declarations))

def sharedNameReport (kind : Kind) (declarations : List TypeDecl) (name : String) : Diagnostic :=
  let group := bearers name declarations
  (Finding.sharedName kind name group.length (firstPlace group)).diagnostic

structure Screened where
  candidates : List TypeDecl
  diagnostics : List Diagnostic
  deriving DecidableEq, Repr

def screen (limits : Limits) (kind : Kind) (declarations : List TypeDecl) : Screened :=
  let own := ofKind kind declarations
  let sound := own.filter (TypeDecl.sound limits)
  { candidates := sound.filter fun d => !isShared sound d.name
    diagnostics := own.flatMap (TypeDecl.defectReports limits) ++
      (sharedNames sound).toList.map (sharedNameReport kind sound) }

end EcsPlan
