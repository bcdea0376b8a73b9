import EntityWeaver.Catalog
import EntityWeaver.Source.TypeDef

/-! Dependencies among components.

    A component has an edge to every component among its markers and, unless it is foundational, to
    every foundational one. Its dependencies are all other components that a path of edges reaches.
    They are found by a search over a list of names still to be looked at: each step takes one name
    off the list or moves a component from the unseen to the found, so cycles do no harm. A selection
    is resolved to itself, in the order asked for, followed by what it depends on, by name. -/

namespace EntityWeaver

/-- What the search finds among the unseen names when it starts from the pending ones. -/
def reached (next : String → List String) (unseen : List String) : List String → List String
  | [] => []
  | name :: pending =>
    if name ∈ unseen then name :: reached next (unseen.erase name) (pending ++ next name)
    else reached next unseen pending
termination_by pending => (unseen.length, pending.length)
decreasing_by
  · next h =>
    have := List.length_erase_of_mem h
    have := List.length_pos_of_mem h
    exact Prod.Lex.left _ _ (by omega)
  · exact Prod.Lex.right _ (by simp)

namespace Catalog

/-- The names of the foundational components. -/
def foundational (c : Catalog) : List String :=
  (c.components.values.filter (·.foundational)).map (·.name)

/-- The components that a component has an edge to. -/
def edges (c : Catalog) (component : ComponentDecl) : List String :=
  component.markers.filter c.components.contains ++
    if component.foundational then [] else c.foundational

/-- The components that the component of a name has an edge to. -/
def edgesFrom (c : Catalog) (name : String) : List String :=
  (c.component? name).elim [] c.edges

/-- The dependencies of a component, by name. -/
def dependencies (c : Catalog) (name : String) : List String :=
  ascending (reached c.edgesFrom (c.components.keys.erase name) (c.edgesFrom name))

/-- A component and its dependencies, by name. -/
def withDependencies (c : Catalog) (name : String) : List String :=
  ascending (name :: c.dependencies name)

/-- A selection with everything it depends on. -/
def resolve (c : Catalog) (requested : List String) : List String :=
  let first := requested.eraseDups
  first ++ (ascending (requested.flatMap c.dependencies)).filter fun name => !first.contains name

end Catalog

end EntityWeaver
