import EntityWeaver.Codec.Table

/-! Snapshots: all declarations that one run works from.

    Snapshots are joined in order, and later codec entries win over earlier ones. A snapshot is valid
    when no two of its components share a name. -/

namespace EntityWeaver

/-- Everything declared, in declaration order. -/
structure Snapshot where
  components : List ComponentDecl := []
  blueprints : List BlueprintDecl := []
  pointers : List PointerDecl := []
  contracts : List ContractDecl := []
  codecs : CodecTable := {}
  deriving DecidableEq

namespace Snapshot

/-- The snapshot with the declarations of another behind its own. -/
def extend (s other : Snapshot) : Snapshot where
  components := s.components ++ other.components
  blueprints := s.blueprints ++ other.blueprints
  pointers := s.pointers ++ other.pointers
  contracts := s.contracts ++ other.contracts
  codecs := s.codecs.extend other.codecs

/-- The first component of that name. -/
def component? (s : Snapshot) (name : String) : Option ComponentDecl :=
  s.components.find? (·.name == name)

/-- The names of the foundational components, in order. -/
def foundationalNames (s : Snapshot) : List String :=
  (s.components.filter (·.foundational)).map (·.name)

/-- The first name that repeats one before it, given the names already seen. -/
def repeatedName? (seen : List String) : List String → Option String
  | [] => none
  | n :: rest => if n ∈ seen then some n else repeatedName? (n :: seen) rest

/-- The first component name that an earlier component has, if any. -/
def duplicate? (s : Snapshot) : Option String := repeatedName? [] (s.components.map (·.name))

end Snapshot

end EntityWeaver
