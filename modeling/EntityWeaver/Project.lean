import EntityWeaver.Dependency
import EntityWeaver.Settings

/-! A project: the settings, the codecs and the catalog that a run consults.

    Generated types live in the output package and are named there without it. What belongs to an
    imported component lives in the import package and is named in full, unless both are the same. -/

namespace EntityWeaver

/-- What every stage of a run may look at; nothing in it changes during the run. -/
structure Project where
  settings : Settings
  codecs : CodecTable
  catalog : Catalog

namespace Project

/-- The project of a snapshot. -/
def ofSnapshot (settings : Settings) (s : Snapshot) : Project := ⟨settings, s.codecs, .ofSnapshot s⟩

def component? (p : Project) (name : String) : Option ComponentDecl := p.catalog.component? name

def isImported (p : Project) (name : String) : Bool := (p.component? name).any (·.imported)

/-- The package of what is generated for a component. -/
def packageOf (p : Project) (component : String) : String :=
  if p.isImported component then p.settings.importPackage else p.settings.outputPackage

/-- A type of a component as generated code names it. -/
def qualify (p : Project) (component simple : String) : String :=
  let package := p.packageOf component
  if package = p.settings.outputPackage then simple else package ++ "." ++ simple

/-- The contract of a component. -/
def contractType (p : Project) (component : String) : String :=
  p.qualify component (ComponentName.contract component)

/-- The base class of a foundational component. -/
def baseType (p : Project) (component : String) : String :=
  p.qualify component (ComponentName.base component)

/-- The imports of components, in normal form. -/
def importsOf (p : Project) (components : List String) : List String :=
  normalImports ((components.filterMap p.component?).flatMap (·.imports))

end Project

end EntityWeaver
