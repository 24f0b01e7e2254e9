import EcsPlan.Load
import EcsPlan.Proofs.Json.Codecs
import EcsPlan.Proofs.Json.Layouts

namespace EcsPlan
open Json

@[simp]
theorem kind_undoes : Undoes Kind.decoder Kind.tree :=
  choice_undoes (fun k => by cases k <;> decide) (by decide)

@[simp]
theorem severity_undoes : Undoes Severity.decoder Severity.tree :=
  choice_undoes (fun s => by cases s <;> decide) (by decide)

@[simp]
theorem code_undoes : Undoes Code.decoder Code.tree :=
  choice_undoes (fun c => by cases c <;> decide) (by decide)

@[simp]
theorem names_undoes : Undoes (.list .string) namesTree := list_undoes string_undoes

theorem place_undoes : Undoes Place.record.decode Place.record.encode := by
  intro p
  rw [Record.decode_encode (by decide)]
  simp [Place.record]

@[simp]
theorem optionalPlace_undoes : Undoes placeDecoder placeTree :=
  optional_undoes place_undoes fun p null => by contradiction

@[simp]
theorem typeDecl_undoes : Undoes TypeDecl.record.decode TypeDecl.record.encode := by
  intro d
  have word (n : UInt32) : wordTree n ≠ .null := fun null => by contradiction
  rw [Record.decode_encode (by decide)]
  simp [TypeDecl.record, word]

@[simp]
theorem queryDecl_undoes : Undoes QueryDecl.record.decode QueryDecl.record.encode := by
  intro q
  rw [Record.decode_encode (by decide)]
  simp [QueryDecl.record]

@[simp]
theorem limits_undoes : Undoes Limits.record.decode Limits.record.encode := by
  intro l
  rw [Record.decode_encode (by decide)]
  simp [Limits.record]

theorem snapshot_undoes : Undoes Snapshot.record.decode Snapshot.record.encode := by
  intro s
  rw [Record.decode_encode (by decide)]
  simp [Snapshot.record]

theorem diagnostic_undoes : Undoes Diagnostic.record.decode Diagnostic.record.encode := by
  intro d
  rw [Record.decode_encode (by decide)]
  simp [Diagnostic.record]

section Texts
variable {α : Type} {l : Layout}

def ReadsBack (l : Layout) (d : Decoder α) (e : α → Tree) : Prop :=
  ∀ a, d.run ((e a).text l).toList = .ok a

theorem Json.Undoes.readsBack {d : Decoder α} {e : α → Tree} (undoes : Undoes d e)
    (blank : l.Blank) : ReadsBack l d e := by
  intro a
  rw [Decoder.run_text d blank]
  exact undoes a

/-- Everything that is written in a layout is read back. -/
structure Restores (l : Layout) : Prop where
  declaration : ReadsBack l TypeDecl.record.decode TypeDecl.record.encode
  query : ReadsBack l QueryDecl.record.decode QueryDecl.record.encode
  place : ReadsBack l Place.record.decode Place.record.encode
  limits : ReadsBack l Limits.record.decode Limits.record.encode
  diagnostic : ReadsBack l Diagnostic.record.decode Diagnostic.record.encode
  snapshot : ∀ s, Snapshot.ofText ((Snapshot.record.encode s).text l) = .ok s
  kind : ReadsBack l Kind.decoder Kind.tree
  code : ReadsBack l Code.decoder Code.tree
  severity : ReadsBack l Severity.decoder Severity.tree

/-- Decoding undoes encoding, whatever blanks the layout puts between the tokens. -/
theorem records_restored (blank : l.Blank) : Restores l where
  declaration := typeDecl_undoes.readsBack blank
  query := queryDecl_undoes.readsBack blank
  place := place_undoes.readsBack blank
  limits := limits_undoes.readsBack blank
  diagnostic := diagnostic_undoes.readsBack blank
  snapshot s := by
    have read := snapshot_undoes.readsBack blank s
    rw [Snapshot.ofText, read]
    rfl
  kind := kind_undoes.readsBack blank
  code := code_undoes.readsBack blank
  severity := severity_undoes.readsBack blank

theorem standard_layouts_restore :
    (Layout.compact.Blank ∧ Restores .compact) ∧ (Layout.pretty.Blank ∧ Restores .pretty) :=
  ⟨⟨compact_blank, records_restored compact_blank⟩, ⟨pretty_blank, records_restored pretty_blank⟩⟩

example : (Place.record.encode ⟨"ship \"\x00\".cs", 4294967295, 0⟩).text .compact =
    "\x7b\"file\":\"ship \\\"\\u0000\\\".cs\",\"line\":4294967295,\"column\":0\x7d" := by
  decide

end Texts
end EcsPlan
