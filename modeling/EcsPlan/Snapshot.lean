namespace EcsPlan

inductive Kind where
  | component
  | tag
  | queryable
  | system
  deriving DecidableEq, Repr, Inhabited

def Kind.all : List Kind := [.component, .tag, .queryable, .system]

def Kind.text : Kind → String
  | .component => "component"
  | .tag => "tag"
  | .queryable => "queryable"
  | .system => "system"

structure Place where
  file : String
  line : UInt32
  column : UInt32
  deriving DecidableEq, Repr

def Place.text (p : Place) : String := s!"{p.file}:{p.line}:{p.column}"

/-- One annotated type. The flags are reported by whatever found it. -/
structure TypeDecl where
  name : String
  kind : Kind
  wellFormed : Bool := true
  hasFields : Bool := false
  unmanaged : Bool := true
  nestedInGeneric : Bool := false
  alignment : UInt32 := 1
  manualId : Option UInt32 := none
  guid : Option String := none
  after : List String := []
  before : List String := []
  place : Option Place := none
  deriving DecidableEq, Repr

/-- The three parts of a filter: all of the first, none of the second and,
    unless it is empty, at least one of the third. -/
structure Filter (α : Type) where
  all : α
  none : α
  any : α
  deriving DecidableEq, Repr

def Filter.map {α β : Type} (f : α → β) (x : Filter α) : Filter β :=
  ⟨f x.all, f x.none, f x.any⟩

structure QueryDecl where
  name : String
  names : Filter (List String) := ⟨[], [], []⟩
  place : Option Place := none
  deriving DecidableEq, Repr

/-- `maxId` is the highest ID that any kind may hold. Component masks wider
    than `customStorageThreshold` need storage of their own. -/
structure Limits where
  maxId : UInt32 := 4095
  customStorageThreshold : UInt32 := 1024
  deriving DecidableEq, Repr

structure Snapshot where
  limits : Limits := {}
  declarations : List TypeDecl := []
  queries : List QueryDecl := []
  deriving DecidableEq, Repr

def ofKind (kind : Kind) (declarations : List TypeDecl) : List TypeDecl :=
  declarations.filter (·.kind = kind)

end EcsPlan
