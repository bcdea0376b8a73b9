import EntityWeaver.Text.Blank
import EntityWeaver.Text.Lowercase

/-! Names derived from a component's name.

        HealthComp  ─┬─ base name      Health      (also its base class)
                     ├─ contract name  Healthc
                     └─ block name     health      (also scopes its share of a merged method)

    A name without the component suffix, or made of it alone, is its own base name. A contract name
    stands for a component with the suffix first and for one without it second. -/

namespace EntityWeaver.ComponentName

/-- What component names end in. -/
def suffix : String := "Comp"

/-- What contract names end in. -/
def contractSuffix : String := "c"

/-- A component's name without its suffix, unless nothing would be left. -/
def base (component : String) : String :=
  match Text.beforeEnd? suffix.toList component.toList with
  | some (c :: cs) => String.ofList (c :: cs)
  | _ => component

/-- The name of a component's contract. -/
def contract (component : String) : String := base component ++ contractSuffix

/-- The name of a component's block. -/
def block (component : String) : String := Text.lowercase (base component)

/-- The components that a contract's name may stand for, the likelier first. -/
def ofContract (contract : String) : List String :=
  match Text.beforeEnd? contractSuffix.toList contract.toList with
  | some (c :: cs) => [String.ofList (c :: cs) ++ suffix, String.ofList (c :: cs)]
  | _ => []

/-- The name of an entity that is given none: the base names of its components, last first. -/
def entityOf (components : List String) : String :=
  String.join (components.reverse.map base)

end EntityWeaver.ComponentName
