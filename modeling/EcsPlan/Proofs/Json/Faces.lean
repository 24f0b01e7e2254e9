import EcsPlan.Proofs.Json.Codecs
import EcsPlan.Proofs.Json.Spellings

/-!
Records in any presentation. The face of a field tells what presents its value and when it may be
left out. A record is presented by an object with its fields in any order and any others between
them, or by an array of its first fields; either way the decoder gives the record. Conversely a
decoded object gives no field twice and lacks none that is required.
-/
namespace EcsPlan.Json

section Values
variable {α β : Type}

def ShowsText (s : String) (o : Outline) : Prop := o = .text (.whole (some s))

def ShowsWord (n : UInt32) (o : Outline) : Prop := o = .numeral (numeral n.toNat)

def ShowsFlag (b : Bool) (o : Outline) : Prop := o = .word (.bool b)

def ShowsOption (shows : β → Outline → Prop) : Option β → Outline → Prop
  | none, o => o = .word .null
  | some b, o => shows b o

def ShowsList (shows : β → Outline → Prop) (l : List β) (o : Outline) : Prop :=
  ∃ values, o = .list (.of values) ∧ List.Forall₂ shows l values

def Accepts (d : Decoder β) (shows : β → Outline → Prop) : Prop :=
  ∀ b o, shows b o → o.firstBreak? = none → d o = .ok b

theorem text_accepts : Accepts .string ShowsText := by
  rintro s o rfl _
  rfl

theorem word_accepts : Accepts .word32 ShowsWord := by
  rintro n o rfl _
  exact word32_undoes n

theorem flag_accepts : Accepts .bool ShowsFlag := by
  rintro b o rfl _
  rfl

variable {d : Decoder β} {shows : β → Outline → Prop}

theorem option_accepts (accepts : Accepts d shows) (solid : ∀ b, ¬ shows b (.word .null)) :
    Accepts (.optional d) (ShowsOption shows) := by
  intro b o shown whole
  cases b with
  | none =>
    rw [ShowsOption] at shown
    rw [shown]
    rfl
  | some b =>
    have value : o ≠ .word .null := by
      rintro rfl
      exact solid b shown
    rw [Decoder.optional, accepts b o shown whole]
    · rfl
    · exact value

theorem list_accepts (accepts : Accepts d shows) : Accepts (.list d) (ShowsList shows) := by
  rintro l o ⟨values, rfl, each⟩ whole
  rw [Outline.firstBreak?, items_whole_iff] at whole
  rw [Decoder.list]
  induction each with
  | nil => rfl
  | @cons b v l values shown _ ih =>
    obtain ⟨here, later⟩ := List.forall_mem_cons.mp whole
    rw [Items.of, Decoder.items, accepts b v shown here, ih later]
    rfl

end Values

/-- What a field of a record is called, which records may leave it out, and what presents its
    value. -/
structure Face (α : Type) where
  name : String
  required : Bool
  isDefault : α → Prop
  shows : α → Outline → Prop

section Faces
variable {α β : Type}

def Face.needed (name : String) (get : α → β) (shows : β → Outline → Prop) : Face α :=
  ⟨name, true, fun _ => False, fun a => shows (get a)⟩

def Face.defaulted (name : String) (default : β) (get : α → β) (shows : β → Outline → Prop) :
    Face α :=
  ⟨name, false, fun a => get a = default, fun a => shows (get a)⟩

/-- The presentations of a record. In an object known fields are given once and shown, and what
    is missing has its default; any member may stand between them if its name is not known. An
    array shows the first fields and what is cut off has its default. -/
inductive Presented (faces : List (Face α)) (a : α) : Outline → Prop where
  | object {members : List (String × Outline)}
      (once : ∀ f ∈ faces, (members.map (·.1)).count f.name ≤ 1)
      (shown : ∀ f ∈ faces, ∀ m ∈ members, m.1 = f.name → f.shows a m.2)
      (absent : ∀ f ∈ faces, f.name ∉ members.map (·.1) → f.isDefault a) :
      Presented faces a (.object (.of (members.map fun m => (.whole (some m.1), m.2))))
  | array {front cut : List (Face α)} {values : List Outline} (split : faces = front ++ cut)
      (shown : List.Forall₂ (fun f o => f.shows a o) front values)
      (absent : ∀ f ∈ cut, f.isDefault a) : Presented faces a (.list (.of values))

end Faces

section Records
variable {α β : Type} {r : Record α} {faces : List (Face α)}

/-- The field does what its face tells: it is decoded from what shows it, no other field is
    touched, and where it may be left out the blank record has its value. -/
structure Field.Obeys (r : Record α) (f : Field α) (g : Face α) : Prop where
  name : f.name = g.name
  presence : f.presence = if g.required then .required else .optional
  needed : g.required = true → ∀ a, ¬ g.isDefault a
  decodes : ∀ a b o, g.shows a o → o.firstBreak? = none → ∃ c, f.decode b o = .ok c ∧
    f.encode c = f.encode a ∧ ∀ h ∈ r.fields, h.name ≠ f.name → h.encode c = h.encode b
  default : ∀ a, g.isDefault a → f.encode r.blank = f.encode a

structure Record.Obeys (r : Record α) (faces : List (Face α)) : Prop where
  each : List.Forall₂ (Field.Obeys r) r.fields faces
  distinct : (r.fields.map (·.name)).Nodup
  injective : Function.Injective r.encode

theorem field_found {name : String} {f : Field α} (found : r.field? name = some f) :
    f ∈ r.fields ∧ f.name = name :=
  ⟨List.mem_of_find?_eq_some found, by simpa using List.find?_some found⟩

def Fills (r : Record α) (a : α) (seen : List String) (b : α) : Prop :=
  ∀ f ∈ r.fields, f.encode b = if f.name ∈ seen then f.encode a else f.encode r.blank

theorem Fills.start (a : α) : Fills r a [] r.blank := fun f _ => by simp

theorem Fills.next {a b : α} {seen : List String} (fills : Fills r a seen b) {f : Field α}
    {g : Face α} (obeys : f.Obeys r g) (distinct : (r.fields.map (·.name)).Nodup)
    (member : f ∈ r.fields) {o : Outline} (shown : g.shows a o) (whole : o.firstBreak? = none) :
    ∃ c, f.decode b o = .ok c ∧ Fills r a (f.name :: seen) c := by
  obtain ⟨c, decoded, own, others⟩ := obeys.decodes a b o shown whole
  refine ⟨c, decoded, fun h listed => ?_⟩
  by_cases same : h.name = f.name
  · have one : h = f := List.inj_on_of_nodup_map distinct listed member same
    rw [one, own, if_pos List.mem_cons_self]
  · rw [others h listed same, fills h listed]
    simp [same]

theorem face_of_field {fields : List (Field α)} (each : List.Forall₂ (Field.Obeys r) fields faces)
    {f : Field α} (member : f ∈ fields) : ∃ g ∈ faces, f.Obeys r g := by
  induction each with
  | nil => contradiction
  | @cons h g _ _ head _ ih =>
    rcases List.mem_cons.mp member with rfl | later
    · exact ⟨g, List.mem_cons_self, head⟩
    · obtain ⟨g, listed, obeys⟩ := ih later
      exact ⟨g, List.mem_cons_of_mem _ listed, obeys⟩

theorem Field.Obeys.optional {f : Field α} {g : Face α} (face : f.Obeys r g) {a : α}
    (absent : g.isDefault a) : f.presence = .optional := by
  rw [face.presence, if_neg fun required => face.needed required a absent]

namespace Record.Obeys
variable (obeys : r.Obeys faces)
include obeys

theorem names : r.fields.map (·.name) = faces.map (·.name) := by
  have each := obeys.each
  clear obeys
  generalize r.fields = fields at each
  induction each with
  | nil => rfl
  | cons head _ ih => rw [List.map_cons, List.map_cons, head.name, ih]

theorem face {f : Field α} (member : f ∈ r.fields) : ∃ g ∈ faces, f.Obeys r g :=
  face_of_field obeys.each member

theorem unknown_iff {name : String} :
    r.field? name = none ↔ ∀ g ∈ faces, g.name ≠ name := by
  have known : name ∉ r.fields.map (·.name) ↔ name ∉ faces.map (·.name) := by rw [obeys.names]
  simpa [Record.field?] using known

theorem filled {a b : α} {seen : List String} (fills : Fills r a seen b)
    (absent : ∀ g ∈ faces, g.name ∉ seen → g.isDefault a) : b = a := by
  refine obeys.injective (congrArg Tree.obj (List.map_congr_left fun f member => ?_))
  obtain ⟨g, listed, face⟩ := obeys.face member
  rw [fills f member]
  split
  · rfl
  · rename_i missing
    rw [face.default a (absent g listed (face.name ▸ missing))]

theorem none_missing {a : α} {seen : List String}
    (absent : ∀ g ∈ faces, g.name ∉ seen → g.isDefault a) :
    r.fields.find? (fun f => f.presence = .required && !seen.contains f.name) = none := by
  refine List.find?_eq_none.mpr fun f member missing => ?_
  obtain ⟨g, listed, face⟩ := obeys.face member
  simp only [Bool.and_eq_true, decide_eq_true_eq, Bool.not_eq_true', List.contains_eq_mem,
    decide_eq_false_iff_not] at missing
  obtain ⟨required, unmet⟩ := missing
  have optional := face.optional (absent g listed (face.name ▸ unmet))
  rw [required] at optional
  contradiction

/-- The induction is on the members that are still to be read; the known ones among them were
    not met before. -/
theorem fromMembers_presented {a b : α} {seen : List String} {members : List (String × Outline)}
    (fills : Fills r a seen b)
    (once : ∀ f ∈ faces, (seen ++ members.map (·.1)).count f.name ≤ 1)
    (shown : ∀ f ∈ faces, ∀ m ∈ members, m.1 = f.name → f.shows a m.2)
    (absent : ∀ f ∈ faces, f.name ∉ seen ++ members.map (·.1) → f.isDefault a)
    (whole : ∀ m ∈ members, m.2.firstBreak? = none) :
    r.fromMembers b seen (.of (members.map fun m => (.whole (some m.1), m.2))) = .ok a := by
  induction members generalizing b seen with
  | nil =>
    rw [List.map_nil, List.append_nil] at absent
    rw [List.map_nil, Members.of, Record.fromMembers, obeys.none_missing absent,
      obeys.filled fills absent]
  | cons m members ih =>
    obtain ⟨name, value⟩ := m
    obtain ⟨here, later⟩ := List.forall_mem_cons.mp whole
    have shown_later : ∀ f ∈ faces, ∀ m ∈ members, m.1 = f.name → f.shows a m.2 :=
      fun f member m listed => shown f member m (List.mem_cons_of_mem _ listed)
    rw [List.map_cons, Members.of, Record.fromMembers]
    simp only [Literal.text, bind, Except.bind]
    cases found : r.field? name with
    | none =>
      have unknown := obeys.unknown_iff.mp found
      simp only [Outline.passOver, here]
      refine ih fills (fun f member => ?_) shown_later (fun f member missing => ?_) later
      · have bound := once f member
        simp only [List.map_cons, List.count_append, List.count_cons] at bound ⊢
        omega
      · refine absent f member ?_
        simpa [unknown f member] using missing
    | some f =>
      obtain ⟨member, rfl⟩ := field_found found
      obtain ⟨g, listed, face⟩ := obeys.face member
      have unmet : f.name ∉ seen := by
        have bound := once g listed
        rw [← face.name] at bound
        simp only [List.map_cons, List.count_append, List.count_cons_self] at bound
        exact List.count_eq_zero.mp (by omega)
      have new : seen.contains f.name = false := by simpa using unmet
      obtain ⟨c, decoded, filled⟩ := fills.next face obeys.distinct member
        (shown g listed _ List.mem_cons_self face.name) here
      simp only [new, decoded, Bool.false_eq_true, if_false]
      refine ih filled (fun f member => ?_) shown_later (fun f member missing => ?_) later
      · have bound := once f member
        simp only [List.map_cons, List.cons_append, List.count_append, List.count_cons] at bound ⊢
        omega
      · refine absent f member ?_
        simp only [List.cons_append, List.mem_cons, List.map_cons, List.mem_append] at missing ⊢
        tauto

/-- The induction is on the values; every face was met before, is shown by one of them or is cut
    off. -/
theorem fromItems_presented {a b : α} {seen : List String} {count : Nat} {fields : List (Field α)}
    {front cut : List (Face α)} {values : List Outline} (fills : Fills r a seen b)
    (inside : ∀ f ∈ fields, f ∈ r.fields)
    (each : List.Forall₂ (Field.Obeys r) fields (front ++ cut))
    (met : ∀ g ∈ faces, g.name ∈ seen ∨ g ∈ front ++ cut)
    (shown : List.Forall₂ (fun f o => f.shows a o) front values)
    (absent : ∀ g ∈ cut, g.isDefault a) (whole : ∀ o ∈ values, o.firstBreak? = none) :
    r.fromItems b count fields (.of values) = .ok a := by
  induction shown generalizing b seen count fields with
  | nil =>
    have optional : fields.all (·.presence = .optional) = true := by
      refine List.all_eq_true.mpr fun f member => decide_eq_true ?_
      obtain ⟨g, listed, face⟩ := face_of_field each member
      exact face.optional (absent g listed)
    have same : b = a := obeys.filled fills fun g member unmet =>
      absent g ((met g member).resolve_left unmet)
    rw [Items.of, same]
    cases fields with
    | nil => rfl
    | cons f fields =>
      rw [Record.fromItems, if_pos optional]
      exact List.cons_ne_nil f fields
  | @cons g o front values shown _ ih =>
    obtain ⟨here, later⟩ := List.forall_mem_cons.mp whole
    cases each with
    | @cons f _ fields _ face each =>
      obtain ⟨member, others⟩ := List.forall_mem_cons.mp inside
      obtain ⟨c, decoded, filled⟩ := fills.next face obeys.distinct member shown here
      rw [Items.of, Record.fromItems]
      simp only [decoded, bind, Except.bind]
      refine ih filled others each (fun h listed => ?_) later
      rcases met h listed with old | new
      · exact .inl (List.mem_cons_of_mem _ old)
      · rcases List.mem_cons.mp new with rfl | rest
        · exact .inl (face.name ▸ List.mem_cons_self)
        · exact .inr rest

theorem decode_presented {a : α} {o : Outline} (presented : Presented faces a o)
    (whole : o.firstBreak? = none) : r.decode o = .ok a := by
  cases presented with
  | @object members once shown absent =>
    rw [Outline.firstBreak?, members_whole_iff] at whole
    rw [Record.decode]
    refine obeys.fromMembers_presented (.start a) once shown absent fun m member => ?_
    exact (whole _ (List.mem_map_of_mem member)).2
  | @array front cut values split shown absent =>
    rw [Outline.firstBreak?, items_whole_iff] at whole
    rw [Record.decode]
    refine obeys.fromItems_presented (.start a) (fun _ member => member) (split ▸ obeys.each)
      (fun g listed => .inr (split ▸ listed)) shown absent whole

end Record.Obeys

section Tables
variable {name : String} {d : Decoder β} {e : β → Tree} {get : α → β} {set : α → β → α}
  {shows : β → Outline → Prop} (accepts : Accepts d shows) (written : ∀ b x, get (set b x) = x)
  (others : ∀ h ∈ r.fields, h.name ≠ name → ∀ b x, h.encode (set b x) = h.encode b)
include accepts written others

theorem of_decodes {presence : Presence} (a b : α) {o : Outline} (shown : shows (get a) o)
    (whole : o.firstBreak? = none) :
    ∃ c, (Field.of name presence d e get set).decode b o = .ok c ∧
      e (get c) = e (get a) ∧ ∀ h ∈ r.fields, h.name ≠ name → h.encode c = h.encode b := by
  refine ⟨set b (get a), ?_, by rw [written], fun h listed other => others h listed other b _⟩
  simp only [Field.of, accepts _ o shown whole]
  rfl

theorem needed_obeys : Field.Obeys r (.of name .required d e get set) (.needed name get shows) where
  name := rfl
  presence := rfl
  needed _ _ := id
  decodes a b _ shown whole := of_decodes accepts written others a b shown whole
  default _ absent := absent.elim

theorem defaulted_obeys {default : β} (blank : get r.blank = default) :
    Field.Obeys r (.of name .optional d e get set) (.defaulted name default get shows) where
  name := rfl
  presence := rfl
  needed required := absurd required Bool.false_ne_true
  decodes a b _ shown whole := of_decodes accepts written others a b shown whole
  default a absent := by
    have same : get a = default := absent
    exact congrArg e (blank.trans same.symm)

end Tables

end Records

section Entries

def Items.entries : Items → List Outline
  | .closed | .broken _ => []
  | .item value rest => value :: rest.entries

def Members.entries : Members → List (Literal × Outline)
  | .closed | .broken _ => []
  | .member key value rest => (key, value) :: rest.entries

/-- The outline gives a value to the field that is called `name`: by a member, or at the place
    of the name among all names. -/
inductive Gives (names : List String) (name : String) (value : Outline) : Outline → Prop where
  | member {members : Members} (listed : (.whole (some name), value) ∈ members.entries) :
      Gives names name value (.object members)
  | item {items : Items} {i : Nat} (place : names[i]? = some name)
      (here : items.entries[i]? = some value) : Gives names name value (.list items)

variable {α : Type} {r : Record α}

theorem bind_ok {ε β γ : Type} {x : Except ε β} {f : β → Except ε γ} {c : γ}
    (run : x >>= f = .ok c) : ∃ b, x = .ok b ∧ f b = .ok c := by
  cases x with
  | error => contradiction
  | ok b => exact ⟨b, rfl, run⟩

theorem map_ok {ε β γ : Type} {x : Except ε β} {f : β → γ} {c : γ} (run : x.map f = .ok c) :
    ∃ b, x = .ok b := by
  cases x with
  | error => contradiction
  | ok b => exact ⟨b, rfl⟩

theorem fromMembers_member {a b : α} {seen : List String} {key : Literal} {value : Outline}
    {rest : Members} (read : r.fromMembers a seen (.member key value rest) = .ok b) :
    ∃ name, key = .whole (some name) ∧
      (r.field? name = none ∧ r.fromMembers a seen rest = .ok b ∨
        ∃ f c, r.field? name = some f ∧ name ∉ seen ∧ f.decode a value = .ok c ∧
          r.fromMembers c (name :: seen) rest = .ok b) := by
  rw [Record.fromMembers] at read
  obtain ⟨name, text, read⟩ := bind_ok read
  have named : key = .whole (some name) := by
    rcases key with ⟨_ | s⟩ | _
    · contradiction
    · rw [Except.ok.inj text]
    · contradiction
  refine ⟨name, named, ?_⟩
  cases found : r.field? name with
  | none =>
    simp only [found] at read
    obtain ⟨_, _, read⟩ := bind_ok read
    exact .inl ⟨rfl, read⟩
  | some f =>
    simp only [found] at read
    split at read
    · contradiction
    · rename_i new
      obtain ⟨c, decoded, read⟩ := bind_ok read
      exact .inr ⟨f, c, rfl, by simpa using new, decoded, read⟩

/-- What the members that are read have of a field: its name no more than once, and a value that
    is decoded wherever its name stands. -/
structure ReadMembers (r : Record α) (seen : List String) (members : Members) : Prop where
  once : ∀ f ∈ r.fields, (members.entries.map (·.1)).count (.whole (some f.name)) ≤
    if f.name ∈ seen then 0 else 1
  complete : ∀ f ∈ r.fields, f.presence = .required →
    f.name ∈ seen ∨ .whole (some f.name) ∈ members.entries.map (·.1)
  decoded : ∀ name f value, r.field? name = some f →
    (.whole (some name), value) ∈ members.entries → ∃ b c, f.decode b value = .ok c

theorem fromMembers_read :
    ∀ (members : Members) {a b : α} {seen : List String},
      r.fromMembers a seen members = .ok b → ReadMembers r seen members
  | .broken _, _, _, _, read => by
    rw [Record.fromMembers] at read
    contradiction
  | .closed, _, _, seen, read => by
    refine ⟨fun f _ => by simp [Members.entries], fun f member required => ?_,
      fun name f value _ listed => by simp [Members.entries] at listed⟩
    rw [Record.fromMembers] at read
    split at read
    · contradiction
    · rename_i complete
      have met := List.find?_eq_none.mp complete f member
      exact .inl (by simpa [required] using met)
  | .member key value rest, a, b, seen, read => by
    obtain ⟨name, rfl, ⟨unknown, later⟩ | ⟨f, c, known, new, decoded, later⟩⟩ :=
      fromMembers_member read
    · have others := fromMembers_read rest later
      have apart : ∀ f ∈ r.fields, f.name ≠ name := by simpa [Record.field?] using unknown
      refine ⟨fun f member => ?_, fun f member required => ?_, fun other f value known listed => ?_⟩
      · have different := (apart f member).symm
        simpa [Members.entries, List.count_cons, different] using others.once f member
      · exact (others.complete f member required).imp_right (List.mem_cons_of_mem _)
      · rcases List.mem_cons.mp listed with first | listed
        · obtain ⟨member, called⟩ := field_found known
          have same : other = name := by simpa using congrArg Prod.fst first
          exact absurd (called.trans same) (apart f member)
        · exact others.decoded other f value known listed
    · have others := fromMembers_read rest later
      refine ⟨fun g member => ?_, fun g member required => ?_, fun other g v met listed => ?_⟩
      · have bound := others.once g member
        by_cases same : g.name = name
        · rw [same, if_pos List.mem_cons_self] at bound
          rw [same, if_neg new, Members.entries, List.map_cons, List.count_cons_self]
          omega
        · simpa [Members.entries, List.count_cons, same, Ne.symm same] using bound
      · rcases others.complete g member required with met | listed
        · rcases List.mem_cons.mp met with rfl | met
          · exact .inr List.mem_cons_self
          · exact .inl met
        · exact .inr (List.mem_cons_of_mem _ listed)
      · rcases List.mem_cons.mp listed with first | listed
        · cases first
          cases known.symm.trans met
          exact ⟨a, c, decoded⟩
        · exact others.decoded other g v met listed

theorem fromItems_read : ∀ (items : Items) {a b : α} {count : Nat} {fields : List (Field α)},
    r.fromItems a count fields items = .ok b → ∀ (i : Nat) (f : Field α) (value : Outline),
      fields[i]? = some f → items.entries[i]? = some value → ∃ b c, f.decode b value = .ok c
  | .closed, _, _, _, _, _ => fun i f value _ here => by simp [Items.entries] at here
  | .broken _, _, _, _, _, _ => fun i f value _ here => by simp [Items.entries] at here
  | .item _ _, _, _, _, [], _ => fun i f value there _ => by simp at there
  | .item first rest, a, b, count, g :: fields, read => fun i f value there here => by
    rw [Record.fromItems] at read
    obtain ⟨c, decoded, read⟩ := bind_ok read
    cases i with
    | zero =>
      cases there
      cases here
      exact ⟨a, c, decoded⟩
    | succ i => exact fromItems_read rest read i f value there here

theorem items_decoded {d : Decoder α} : ∀ (items : Items) {l : List α},
    Decoder.items d items = .ok l → ∀ o ∈ items.entries, ∃ a, d o = .ok a
  | .closed, _, _ => fun o member => by simp [Items.entries] at member
  | .broken _, _, _ => fun o member => by simp [Items.entries] at member
  | .item first rest, l, read => fun o member => by
    rw [Decoder.items] at read
    obtain ⟨a, decoded, read⟩ := bind_ok read
    obtain ⟨more, later, -⟩ := bind_ok read
    rcases List.mem_cons.mp member with rfl | member
    · exact ⟨a, decoded⟩
    · exact items_decoded rest later o member

/-- A decoded record has decoded what it is given for a field. -/
theorem decode_gives (distinct : (r.fields.map (·.name)).Nodup) {a : α} {o : Outline}
    (read : r.decode o = .ok a) {name : String} {f : Field α} (known : r.field? name = some f)
    {value : Outline} (given : Gives (r.fields.map (·.name)) name value o) :
    ∃ b c, f.decode b value = .ok c := by
  cases given with
  | member listed => exact (fromMembers_read _ read).decoded name f value known listed
  | @item items i place here =>
    obtain ⟨g, there, rfl⟩ : ∃ g, r.fields[i]? = some g ∧ g.name = name := by simpa using place
    obtain ⟨member, called⟩ := field_found known
    have one : g = f :=
      List.inj_on_of_nodup_map distinct (List.mem_of_getElem? there) member called.symm
    exact fromItems_read items read i f value (one ▸ there) here

end Entries
end EcsPlan.Json
