import EntityWeaver.Text.Blank

/-! Settings of a run.

    Four of them must be given: a name or package of blanks counts as missing, a directory only when
    it is empty. Two more have a usual value. -/

namespace EntityWeaver

/-- What a run is told besides the declarations. -/
structure Settings where
  /-- Goes in front of the names of bound content. -/
  moduleName : String
  /-- The package of every generated type. -/
  outputPackage : String
  /-- The package of the contracts and base classes of imported components. -/
  importPackage : String
  /-- Where the histories of layouts are kept. -/
  revisionDir : String
  /-- The component that makes an entity synchronized. -/
  syncComponent : String := "SyncComp"
  /-- The contract that every registered type has. -/
  rootContract : String := "Entityc"
  deriving Repr, DecidableEq

namespace Settings

/-- A setting that must be given and is not. -/
structure Missing where
  name : String
  deriving Repr, DecidableEq

def Missing.message (e : Missing) : String := "`" ++ e.name ++ "` not supplied"

/-- The first missing setting. -/
def missing? (s : Settings) : Option Missing :=
  if Text.isBlankText s.moduleName then some ⟨"module_name"⟩
  else if Text.isBlankText s.outputPackage then some ⟨"output_package"⟩
  else if Text.isBlankText s.importPackage then some ⟨"import_package"⟩
  else if s.revisionDir = "" then some ⟨"revision_dir"⟩
  else none

end Settings

end EntityWeaver
