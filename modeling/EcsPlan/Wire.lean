import EcsPlan.Diagnostic
import EcsPlan.Json.Record

namespace EcsPlan
open Json

def Kind.decoder : Decoder Kind := .choice Kind.all Kind.text

def Severity.decoder : Decoder Severity := .choice Severity.all Severity.text

def Code.decoder : Decoder Code := .choice Code.all Code.text

def Kind.tree (k : Kind) : Tree := .str k.text

def Severity.tree (s : Severity) : Tree := .str s.text

def Code.tree (c : Code) : Tree := .str c.text

def namesTree : List String → Tree := listTree .str

def Place.record : Record Place where
  title := "SourceLocation"
  blank := ⟨"", 0, 0⟩
  fields :=
    [.of "file" .required .string .str (·.file) fun p x => { p with file := x },
     .of "line" .required .word32 wordTree (·.line) fun p x => { p with line := x },
     .of "column" .required .word32 wordTree (·.column) fun p x => { p with column := x }]

def placeDecoder : Decoder (Option Place) := .optional Place.record.decode

def placeTree : Option Place → Tree := optionTree Place.record.encode

def TypeDecl.record : Record TypeDecl where
  title := "TypeDeclaration"
  blank := { name := "", kind := .component }
  fields :=
    [.of "name" .required .string .str (·.name) fun d x => { d with name := x },
     .of "kind" .required Kind.decoder Kind.tree (·.kind) fun d x => { d with kind := x },
     .of "is_structurally_valid" .optional .bool .bool (·.wellFormed)
       fun d x => { d with wellFormed := x },
     .of "has_instance_fields" .optional .bool .bool (·.hasFields)
       fun d x => { d with hasFields := x },
     .of "is_unmanaged" .optional .bool .bool (·.unmanaged)
       fun d x => { d with unmanaged := x },
     .of "nested_in_generic" .optional .bool .bool (·.nestedInGeneric)
       fun d x => { d with nestedInGeneric := x },
     .of "alignment" .optional .word32 wordTree (·.alignment)
       fun d x => { d with alignment := x },
     .of "manual_id" .optional (.optional .word32) (optionTree wordTree) (·.manualId)
       fun d x => { d with manualId := x },
     .of "guid" .optional (.optional .string) (optionTree .str) (·.guid)
       fun d x => { d with guid := x },
     .of "after" .optional (.list .string) namesTree (·.after)
       fun d x => { d with after := x },
     .of "before" .optional (.list .string) namesTree (·.before)
       fun d x => { d with before := x },
     .of "location" .optional placeDecoder placeTree (·.place)
       fun d x => { d with place := x }]

def QueryDecl.record : Record QueryDecl where
  title := "QueryDeclaration"
  blank := { name := "" }
  fields :=
    [.of "name" .required .string .str (·.name) fun q x => { q with name := x },
     .of "all" .optional (.list .string) namesTree (·.names.all)
       fun q x => { q with names.all := x },
     .of "none" .optional (.list .string) namesTree (·.names.none)
       fun q x => { q with names.none := x },
     .of "any" .optional (.list .string) namesTree (·.names.any)
       fun q x => { q with names.any := x },
     .of "location" .optional placeDecoder placeTree (·.place)
       fun q x => { q with place := x }]

def Limits.record : Record Limits where
  title := "GeneratorConfig"
  blank := {}
  fields :=
    [.of "max_id" .optional .word32 wordTree (·.maxId) fun l x => { l with maxId := x },
     .of "custom_storage_threshold" .optional .word32 wordTree (·.customStorageThreshold)
       fun l x => { l with customStorageThreshold := x }]

def Snapshot.record : Record Snapshot where
  title := "Manifest"
  blank := {}
  fields :=
    [.of "config" .optional Limits.record.decode Limits.record.encode (·.limits)
       fun s x => { s with limits := x },
     .of "declarations" .optional (.list TypeDecl.record.decode)
       (listTree TypeDecl.record.encode) (·.declarations)
       fun s x => { s with declarations := x },
     .of "queries" .optional (.list QueryDecl.record.decode)
       (listTree QueryDecl.record.encode) (·.queries)
       fun s x => { s with queries := x }]

def Diagnostic.record : Record Diagnostic where
  title := "Diagnostic"
  blank := ⟨.structuralDefect, .error, "", none⟩
  fields :=
    [.of "code" .required Code.decoder Code.tree (·.code) fun d x => { d with code := x },
     .of "severity" .required Severity.decoder Severity.tree (·.severity)
       fun d x => { d with severity := x },
     .of "message" .required .string .str (·.message) fun d x => { d with message := x },
     .of "location" .requiredInArray placeDecoder placeTree (·.place)
       fun d x => { d with place := x }]

end EcsPlan
