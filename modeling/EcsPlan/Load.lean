import EcsPlan.Wire

namespace EcsPlan
open Json

inductive LoadError where
  | missing
  | notText
  | invalid (fault : Fault)

/-- A text that is not JSON is refused without a message of its own. -/
def LoadError.message? : LoadError → Option String
  | .missing => some "io error: No such file or directory (os error 2)"
  | .notText => some "io error: stream did not contain valid UTF-8"
  | .invalid (.misfit m) => some s!"invalid manifest: {m.message}"
  | .invalid (.broken _) => none

namespace Snapshot

def ofText (text : String) : Except LoadError Snapshot :=
  (Snapshot.record.decode.run text.toList).mapError .invalid

def ofFile : Option ByteArray → Except LoadError Snapshot
  | none => .error .missing
  | some bytes =>
    match String.fromUTF8? bytes with
    | none => .error .notText
    | some text => ofText text

end Snapshot
end EcsPlan
