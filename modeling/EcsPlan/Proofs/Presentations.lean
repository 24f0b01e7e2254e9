import EcsPlan.Proofs.Json.Faces
import EcsPlan.Proofs.RoundTrip

/-!
Snapshots in any presentation. Each record may be an object with its fields in any order, without
those that have their default and with members that nobody knows, or an array that is cut behind
the required fields; any blanks separate the tokens. All such texts are one snapshot. A text in
which an object on the way gives a field twice or lacks a required one is none.
-/
namespace EcsPlan
open Json

section Faces

def Place.faces : List (Face Place) :=
  [.needed "file" (·.file) ShowsText,
   .needed "line" (·.line) ShowsWord,
   .needed "column" (·.column) ShowsWord]

def TypeDecl.faces : List (Face TypeDecl) :=
  [.needed "name" (·.name) ShowsText,
   .needed "kind" (·.kind) fun k => ShowsText k.text,
   .defaulted "is_structurally_valid" true (·.wellFormed) ShowsFlag,
   .defaulted "has_instance_fields" false (·.hasFields) ShowsFlag,
   .defaulted "is_unmanaged" true (·.unmanaged) ShowsFlag,
   .defaulted "nested_in_generic" false (·.nestedInGeneric) ShowsFlag,
   .defaulted "alignment" 1 (·.alignment) ShowsWord,
   .defaulted "manual_id" none (·.manualId) (ShowsOption ShowsWord),
   .defaulted "guid" none (·.guid) (ShowsOption ShowsText),
   .defaulted "after" [] (·.after) (ShowsList ShowsText),
   .defaulted "before" [] (·.before) (ShowsList ShowsText),
   .defaulted "location" none (·.place) (ShowsOption (Presented Place.faces))]

def QueryDecl.faces : List (Face QueryDecl) :=
  [.needed "name" (·.name) ShowsText,
   .defaulted "all" [] (·.names.all) (ShowsList ShowsText),
   .defaulted "none" [] (·.names.none) (ShowsList ShowsText),
   .defaulted "any" [] (·.names.any) (ShowsList ShowsText),
   .defaulted "location" none (·.place) (ShowsOption (Presented Place.faces))]

def Limits.faces : List (Face Limits) :=
  [.defaulted "max_id" 4095 (·.maxId) ShowsWord,
   .defaulted "custom_storage_threshold" 1024 (·.customStorageThreshold) ShowsWord]

def Snapshot.faces : List (Face Snapshot) :=
  [.defaulted "config" ⟨4095, 1024⟩ (·.limits) (Presented Limits.faces),
   .defaulted "declarations" [] (·.declarations) (ShowsList (Presented TypeDecl.faces)),
   .defaulted "queries" [] (·.queries) (ShowsList (Presented QueryDecl.faces))]

theorem kind_accepts : Accepts Kind.decoder fun k => ShowsText k.text := by
  rintro k o rfl _
  exact kind_undoes k

theorem names_accepts : Accepts (.list .string) (ShowsList ShowsText) := list_accepts text_accepts

theorem place_obeys : Place.record.Obeys Place.faces where
  each := by
    refine .cons (needed_obeys text_accepts ?_ ?_) (.cons (needed_obeys word_accepts ?_ ?_)
      (.cons (needed_obeys word_accepts ?_ ?_) .nil))
    all_goals simp [Place.record, Field.of]
  distinct := by decide
  injective := place_undoes.injective

theorem place_accepts : Accepts placeDecoder (ShowsOption (Presented Place.faces)) :=
  option_accepts (fun _ _ => place_obeys.decode_presented) fun _ presented => by cases presented

theorem typeDecl_obeys : TypeDecl.record.Obeys TypeDecl.faces where
  each := by
    have word : Accepts (.optional .word32) (ShowsOption ShowsWord) :=
      option_accepts word_accepts fun _ null => by contradiction
    have text : Accepts (.optional .string) (ShowsOption ShowsText) :=
      option_accepts text_accepts fun _ null => by contradiction
    refine .cons (needed_obeys text_accepts ?_ ?_) (.cons (needed_obeys kind_accepts ?_ ?_)
      (.cons (defaulted_obeys flag_accepts ?_ ?_ rfl)
      (.cons (defaulted_obeys flag_accepts ?_ ?_ rfl)
      (.cons (defaulted_obeys flag_accepts ?_ ?_ rfl)
      (.cons (defaulted_obeys flag_accepts ?_ ?_ rfl)
      (.cons (defaulted_obeys word_accepts ?_ ?_ rfl)
      (.cons (defaulted_obeys word ?_ ?_ rfl)
      (.cons (defaulted_obeys text ?_ ?_ rfl)
      (.cons (defaulted_obeys names_accepts ?_ ?_ rfl)
      (.cons (defaulted_obeys names_accepts ?_ ?_ rfl)
      (.cons (defaulted_obeys place_accepts ?_ ?_ rfl) .nil)))))))))))
    all_goals simp [TypeDecl.record, Field.of]
  distinct := by decide
  injective := typeDecl_undoes.injective

theorem queryDecl_obeys : QueryDecl.record.Obeys QueryDecl.faces where
  each := by
    refine .cons (needed_obeys text_accepts ?_ ?_)
      (.cons (defaulted_obeys names_accepts ?_ ?_ rfl)
      (.cons (defaulted_obeys names_accepts ?_ ?_ rfl)
      (.cons (defaulted_obeys names_accepts ?_ ?_ rfl)
      (.cons (defaulted_obeys place_accepts ?_ ?_ rfl) .nil))))
    all_goals simp [QueryDecl.record, Field.of]
  distinct := by decide
  injective := queryDecl_undoes.injective

theorem limits_obeys : Limits.record.Obeys Limits.faces where
  each := by
    refine .cons (defaulted_obeys word_accepts ?_ ?_ rfl)
      (.cons (defaulted_obeys word_accepts ?_ ?_ rfl) .nil)
    all_goals simp [Limits.record, Field.of]
  distinct := by decide
  injective := limits_undoes.injective

theorem snapshot_obeys : Snapshot.record.Obeys Snapshot.faces where
  each := by
    refine .cons (defaulted_obeys (fun _ _ => limits_obeys.decode_presented) ?_ ?_ rfl)
      (.cons (defaulted_obeys (list_accepts fun _ _ => typeDecl_obeys.decode_presented) ?_ ?_ rfl)
      (.cons (defaulted_obeys (list_accepts fun _ _ => queryDecl_obeys.decode_presented) ?_ ?_ rfl)
        .nil))
    all_goals simp [Snapshot.record, Field.of]
  distinct := by decide
  injective := snapshot_undoes.injective

end Faces

section Faults

inductive Part where
  | snapshot
  | limits
  | declaration
  | query
  | place

def Part.fields : Part → List String
  | .snapshot => ["config", "declarations", "queries"]
  | .limits => ["max_id", "custom_storage_threshold"]
  | .declaration => ["name", "kind", "is_structurally_valid", "has_instance_fields",
      "is_unmanaged", "nested_in_generic", "alignment", "manual_id", "guid", "after", "before",
      "location"]
  | .query => ["name", "all", "none", "any", "location"]
  | .place => ["file", "line", "column"]

def Part.required : Part → List String
  | .snapshot | .limits => []
  | .declaration => ["name", "kind"]
  | .query => ["name"]
  | .place => ["file", "line", "column"]

/-- Where a part of a snapshot stands in an outline. -/
inductive Stands (root : Outline) : Part → Outline → Prop where
  | snapshot : Stands root .snapshot root
  | limits {o value : Outline} (above : Stands root .snapshot o)
      (given : Gives Part.snapshot.fields "config" value o) : Stands root .limits value
  | declaration {o value : Outline} {items : Items} (above : Stands root .snapshot o)
      (given : Gives Part.snapshot.fields "declarations" (.list items) o)
      (listed : value ∈ items.entries) : Stands root .declaration value
  | query {o value : Outline} {items : Items} (above : Stands root .snapshot o)
      (given : Gives Part.snapshot.fields "queries" (.list items) o)
      (listed : value ∈ items.entries) : Stands root .query value
  | declarationPlace {o value : Outline} (above : Stands root .declaration o)
      (given : Gives Part.declaration.fields "location" value o) : Stands root .place value
  | queryPlace {o value : Outline} (above : Stands root .query o)
      (given : Gives Part.query.fields "location" value o) : Stands root .place value

/-- An object gives a field twice or lacks one that is required. -/
inductive Faulty (fields required : List String) : Outline → Prop where
  | twice {members : Members} {name : String} (known : name ∈ fields)
      (again : 2 ≤ (members.entries.map (·.1)).count (.whole (some name))) :
      Faulty fields required (.object members)
  | lacking {members : Members} {name : String} (needed : name ∈ required)
      (absent : .whole (some name) ∉ members.entries.map (·.1)) :
      Faulty fields required (.object members)

/-- Some object on the way through a snapshot is faulty. -/
def Ambiguous (root : Outline) : Prop :=
  ∃ part o, Stands root part o ∧ Faulty part.fields part.required o

def Part.Decodes : Part → Outline → Prop
  | .snapshot, o => ∃ s, Snapshot.record.decode o = .ok s
  | .limits, o => ∃ l, Limits.record.decode o = .ok l
  | .declaration, o => ∃ d, TypeDecl.record.decode o = .ok d
  | .query, o => ∃ q, QueryDecl.record.decode o = .ok q
  | .place, o => ∃ p, placeDecoder o = .ok p

theorem of_gives {α β : Type} {r : Record α} (distinct : (r.fields.map (·.name)).Nodup) {a : α}
    {o value : Outline} (read : r.decode o = .ok a) {name : String} {presence : Presence}
    {d : Decoder β} {e : β → Tree} {get : α → β} {set : α → β → α}
    (known : r.field? name = some (.of name presence d e get set))
    (given : Gives (r.fields.map (·.name)) name value o) : ∃ b, d value = .ok b := by
  obtain ⟨b, c, decoded⟩ := decode_gives distinct read known given
  exact map_ok decoded

/-- What holds a part that is decoded has decoded it. -/
theorem stands_decodes {root : Outline} (read : Part.snapshot.Decodes root) {part : Part}
    {o : Outline} (stands : Stands root part o) : part.Decodes o := by
  induction stands with
  | snapshot => exact read
  | limits _ given above =>
    obtain ⟨s, read⟩ := above
    exact of_gives (by decide) read rfl given
  | declaration _ given listed above =>
    obtain ⟨s, read⟩ := above
    obtain ⟨l, decoded⟩ := of_gives (by decide) read rfl given
    exact items_decoded _ decoded _ listed
  | query _ given listed above =>
    obtain ⟨s, read⟩ := above
    obtain ⟨l, decoded⟩ := of_gives (by decide) read rfl given
    exact items_decoded _ decoded _ listed
  | declarationPlace _ given above =>
    obtain ⟨d, read⟩ := above
    exact of_gives (by decide) read rfl given
  | queryPlace _ given above =>
    obtain ⟨q, read⟩ := above
    exact of_gives (by decide) read rfl given

theorem record_faultless {α : Type} {r : Record α} {a : α} {o : Outline} {required : List String}
    (needed : ∀ name ∈ required, ∃ f ∈ r.fields, f.presence = .required ∧ f.name = name)
    (read : r.decode o = .ok a) : ¬ Faulty (r.fields.map (·.name)) required o := by
  rintro (⟨known, again⟩ | ⟨listed, absent⟩)
  · obtain ⟨f, member, rfl⟩ := List.mem_map.mp known
    have bound := (fromMembers_read _ read).once f member
    rw [if_neg List.not_mem_nil] at bound
    omega
  · obtain ⟨f, member, required, rfl⟩ := needed _ listed
    rcases (fromMembers_read _ read).complete f member required with none | some
    · contradiction
    · exact absent some

theorem part_faultless {part : Part} {o : Outline} (decodes : part.Decodes o) :
    ¬ Faulty part.fields part.required o := by
  cases part with
  | snapshot =>
    obtain ⟨s, read⟩ := decodes
    exact record_faultless (by decide) read
  | limits =>
    obtain ⟨l, read⟩ := decodes
    exact record_faultless (by decide) read
  | declaration =>
    obtain ⟨d, read⟩ := decodes
    exact record_faultless (by decide) read
  | query =>
    obtain ⟨q, read⟩ := decodes
    exact record_faultless (by decide) read
  | place =>
    obtain ⟨p, read⟩ := decodes
    intro faulty
    obtain ⟨members, rfl⟩ : ∃ members, o = .object members := by cases faulty <;> exact ⟨_, rfl⟩
    have given : (Place.record.decode (.object members)).map some = .ok p := read
    obtain ⟨q, taken⟩ := map_ok given
    exact record_faultless (by decide) taken faulty

theorem ambiguous_rejected {text : String} (ambiguous : Ambiguous (outline text.toList).1) :
    ∃ fault, Snapshot.ofText text = .error fault := by
  obtain ⟨part, o, stands, faulty⟩ := ambiguous
  cases taken : Snapshot.record.decode (outline text.toList).1 with
  | ok s => exact absurd faulty (part_faultless (stands_decodes ⟨s, taken⟩ stands))
  | error fault =>
    refine ⟨.invalid fault, ?_⟩
    simp only [Snapshot.ofText, Decoder.run, taken]
    rfl

end Faults

/-- However a text presents a snapshot it is decoded as this snapshot. A text in which some record
    is ambiguous is not decoded: one that is spelled out, and any other as far as it is read. -/
theorem presentations_decoded (text : String) :
    (∀ o s, Spells o text → Presented Snapshot.faces s o → Snapshot.ofText text = .ok s) ∧
      (∀ o, Spells o text → Ambiguous o → ∃ fault, Snapshot.ofText text = .error fault) ∧
      (Ambiguous (outline text.toList).1 → ∃ fault, Snapshot.ofText text = .error fault) := by
  refine ⟨fun o s spelled presented => ?_, fun o spelled ambiguous => ?_, ambiguous_rejected⟩
  · rw [Snapshot.ofText, Decoder.run_spelled _ spelled,
      snapshot_obeys.decode_presented presented spelled.whole]
    rfl
  · obtain ⟨rest, read, -⟩ := outline_spelled spelled
    exact ambiguous_rejected (by rwa [read])

section Scattered

def word (s : String) : Outline := .text (.whole (some s))

theorem word_tokens (s : String) : Tokens (word s) [quote s] := .text (quote_text s)

def wetTag : Outline :=
  .object (.of [(.whole (some "kind"), word "tag"), (.whole (some "name"), word "Wet")])

/-- The one query is an array that is cut, and a note that nobody knows stands before the one
    tag, whose fields are out of order. -/
def scattered : Outline :=
  .object (.of
    [(.whole (some "queries"), .list (.of [.list (.of [word "Rain"])])),
     (.whole (some "note"), .numeral ⟨true, [1], some [5], some (false, [3])⟩),
     (.whole (some "declarations"), .list (.of [wetTag]))])

def scatteredText : String :=
  "\x7b \"queries\": [[\"Rain\"]],\n\t\"note\": -1.5e+3, " ++
    "\"declarations\": [\x7b\"kind\":\"tag\",\"n\\u0061me\":\"Wet\"\x7d] \x7d"

def scatteredParts : List (List Char × List Char) :=
  [("", "\x7b"), (" ", "\"queries\""), ("", ":"), (" ", "["), ("", "["), ("", "\"Rain\""),
    ("", "]"), ("", "]"), ("", ","), ("\n\t", "\"note\""), ("", ":"), (" ", "-1.5e+3"),
    ("", ","), (" ", "\"declarations\""), ("", ":"), (" ", "["), ("", "\x7b"),
    ("", "\"kind\""), ("", ":"), ("", "\"tag\""), ("", ","), ("", "\"n\\u0061me\""),
    ("", ":"), ("", "\"Wet\""), ("", "\x7d"), ("", "]"), (" ", "\x7d")].map
      fun (blanks, token) => (blanks.toList, token.toList)

theorem note_text :
    NumeralText ⟨true, [1], some [5], some (false, [3])⟩ "-1.5e+3".toList := by
  have one : DigitText [1] ['1'] := ⟨by simp, by simp, by decide⟩
  have five : DigitText [5] ['5'] := ⟨by simp, by simp, by decide⟩
  have three : DigitText [3] ['3'] := ⟨by simp, by simp, by decide⟩
  exact .of one (by simp) (.some five) (.some (.inl rfl) .plus three)

theorem escaped_name_text : LiteralText (.whole (some "name")) "\"n\\u0061me\"".toList := by
  have plain (c : Char) (visible : 32 ≤ c.toNat ∧ c ≠ '"' ∧ c ≠ '\\') :
      PieceText (.char c) [c] := .plain visible.1 visible.2.1 visible.2.2
  have unit : PieceText (.unit 0x61) "\\u0061".toList := .unit (by decide)
  refine @LiteralText.of [(.char 'n', ['n']), (.unit 0x61, "\\u0061".toList),
    (.char 'm', ['m']), (.char 'e', ['e'])] ?_
  simpa using ⟨plain 'n' (by decide), unit, plain 'm' (by decide), plain 'e' (by decide)⟩

theorem scattered_spelled : Spells scattered scatteredText := by
  have query : Tokens (.list (.of [word "Rain"])) _ :=
    @Tokens.list [(_, _)] fun | _, .head _ => word_tokens "Rain"
  have tag : Tokens wetTag _ :=
    @Tokens.object [⟨_, _, _, _⟩, ⟨_, _, _, _⟩]
      (by simpa using ⟨quote_text "kind", escaped_name_text⟩)
      (by simpa using ⟨word_tokens "tag", word_tokens "Wet"⟩)
  have tokens := @Tokens.object [⟨_, _, _, _⟩, ⟨_, _, _, _⟩, ⟨_, _, _, _⟩]
    (by simpa using ⟨quote_text "queries", quote_text "note", quote_text "declarations"⟩)
    (by simpa using ⟨@Tokens.list [(_, _)] (by simpa using query), .numeral note_text,
      @Tokens.list [(_, _)] (by simpa using tag)⟩)
  have checked : scatteredParts.all (·.1.all isBlank) = true := by decide
  have blank : ∀ p ∈ scatteredParts, Blanks p.1 := by
    simpa only [List.all_eq_true, Blanks] using checked
  have none : Blanks [] := by simp [Blanks]
  exact ⟨_, tokens, spaced_of blank none⟩

def scatteredSnapshot : Snapshot :=
  { declarations := [{ name := "Wet", kind := .tag }], queries := [{ name := "Rain" }] }

theorem scattered_presented : Presented Snapshot.faces scatteredSnapshot scattered := by
  have query : Presented QueryDecl.faces { name := "Rain" } (.list (.of [word "Rain"])) :=
    @Presented.array _ _ _ [_] _ _ rfl (.cons rfl .nil) (by simp [Face.defaulted])
  have tag : Presented TypeDecl.faces { name := "Wet", kind := .tag } wetTag := by
    refine @Presented.object _ _ _ [("kind", word "tag"), ("name", word "Wet")] (by decide) ?_ ?_
    · simp [TypeDecl.faces, Face.needed, Face.defaulted]
      exact ⟨rfl, rfl⟩
    · simp [TypeDecl.faces, Face.needed, Face.defaulted]
  refine @Presented.object _ _ _ [("queries", _), ("note", _), ("declarations", _)]
    (by decide) ?_ ?_
  · simp [Snapshot.faces, Face.defaulted]
    exact ⟨⟨_, rfl, .cons tag .nil⟩, ⟨_, rfl, .cons query .nil⟩⟩
  · simp [Snapshot.faces, Face.defaulted, scatteredSnapshot]

def nameless : Outline :=
  .object (.of [(.whole (some "queries"), .list (.of [.object (.of [])]))])

def namelessText : String := "\x7b\"queries\":[\x7b\x7d]\x7d"

theorem nameless_spelled : Spells nameless namelessText := by
  have query := @Tokens.object [] (by simp) (by simp)
  have tokens := @Tokens.object [⟨_, _, _, _⟩] (by simpa using quote_text "queries")
    (by simpa using @Tokens.list [(_, _)] (by simpa using query))
  have spaced := @spaced_of (["\x7b", "\"queries\"", ":", "[", "\x7b", "\x7d", "]", "\x7d"].map
    fun t => ([], t.toList)) (by simp [Blanks]) [] (by simp [Blanks])
  exact ⟨_, tokens, spaced⟩

theorem nameless_ambiguous : Ambiguous nameless :=
  ⟨.query, _, .query .snapshot (.member (.head _)) (.head _),
    .lacking (.head _) (by simp [Members.of, Members.entries])⟩

theorem scattered_text_decoded :
    (Spells scattered scatteredText ∧ Presented Snapshot.faces scatteredSnapshot scattered ∧
      Snapshot.ofText scatteredText = .ok scatteredSnapshot) ∧
    Spells nameless namelessText ∧ Ambiguous nameless ∧
      ∃ fault, Snapshot.ofText namelessText = .error fault :=
  ⟨⟨scattered_spelled, scattered_presented,
      (presentations_decoded scatteredText).1 _ _ scattered_spelled scattered_presented⟩,
    nameless_spelled, nameless_ambiguous,
    (presentations_decoded namelessText).2.1 _ nameless_spelled nameless_ambiguous⟩

end Scattered

end EcsPlan
