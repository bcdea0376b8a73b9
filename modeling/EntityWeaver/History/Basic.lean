import EntityWeaver.FieldSet
import EntityWeaver.Codec.Table

/-! Histories of layouts.

    An entity's saved data has a layout, the names and types of its serialized fields in stream order.
    The layouts that an entity ever had are numbered, so that data saved under an old one can still be
    read. Bringing a history up to date adds a revision only when the layout differs from the newest:

          load ──▶ sort by version ──▶ newest layout the same?  ──yes──▶ the history as it is
                                              │ no
                                              ▼
                                  store under the next version  ──────▶ the history with it

    Version numbers have sixteen bits, and the last of them is its own successor. -/

namespace EntityWeaver

/-- One field of a layout. -/
structure LayoutField where
  name : String
  type : String
  deriving Repr, DecidableEq

/-- A numbered layout. -/
structure Revision where
  version : UInt16
  fields : List LayoutField
  deriving Repr, DecidableEq

/-- Why a store of histories does not answer. -/
inductive HistoryError where
  | io (path reason : String)
  | malformed (path reason : String)
  deriving Repr, DecidableEq

def HistoryError.message : HistoryError → String
  | .io path reason => "revision io error at " ++ path ++ ": " ++ reason
  | .malformed path reason => "malformed revision file " ++ path ++ ": " ++ reason

/-- The layout of a field set: its serialized fields with their types in normal form. -/
def FieldSet.layout (s : FieldSet) : List LayoutField :=
  (FieldDecl.serialized s.decls).map fun f => ⟨f.name, normalType f.type⟩

/-- A store of histories, by entity. -/
structure HistoryStore (m : Type → Type) where
  /-- The revisions of an entity, oldest first. -/
  load : String → m (Except HistoryError (List Revision))
  /-- Keep a revision, in place of one with the same version. -/
  store : String → Revision → m (Except HistoryError Unit)

namespace Revision

/-- Revisions by version. -/
def sort (history : List Revision) : List Revision :=
  history.mergeSort fun a b => a.version ≤ b.version

/-- The version behind a version. -/
def nextVersion (v : UInt16) : UInt16 := if v = 0xffff then v else v + 1

/-- The revision that a history lacks, if its newest layout is not the given one. -/
def lacking? (history : List Revision) (layout : List LayoutField) : Option Revision :=
  match history.getLast? with
  | none => some ⟨0, layout⟩
  | some r => if r.fields = layout then none else some ⟨nextVersion r.version, layout⟩

end Revision

/-- Bring an entity's history up to date with a layout, which is then its newest. -/
def HistoryStore.update {m : Type → Type} [Monad m] (s : HistoryStore m) (entity : String)
    (layout : List LayoutField) : m (Except HistoryError (List Revision)) := do
  match ← s.load entity with
  | .error e => return .error e
  | .ok loaded =>
    let history := Revision.sort loaded
    match Revision.lacking? history layout with
    | none => return .ok history
    | some revision =>
      match ← s.store entity revision with
      | .error e => return .error e
      | .ok () => return .ok (history ++ [revision])

end EntityWeaver
