import EntityWeaver.Declaration.Basic
import EntityWeaver.Rank

/-! Splices: methods that are called inside, or decide about, a method of another signature.

    A splice comes from an insert or a wrap directive. It aims at the whole of the target method or at
    the block of one component in it. The index of a run lists all splices with their targets, in
    declaration order; where splices act on the same place they go by priority, then by component. -/

namespace EntityWeaver

/-- What a splice does at its place. -/
inductive SpliceKind where
  /-- Calls the method, before or after the group check as `bypass` says. -/
  | insert (after bypass : Bool)
  /-- Lets the place run only if the method returns true. -/
  | wrap
  deriving Repr, DecidableEq

/-- A method spliced into another. -/
structure Splice where
  /-- The component that declares the method. -/
  component : String
  method : String
  /-- The component whose block is meant; without one the whole method is. -/
  block : Option String
  priority : Int32
  kind : SpliceKind
  deriving Repr, DecidableEq

namespace Splice

def isInsert (s : Splice) (after : Bool) : Bool :=
  match s.kind with
  | .insert a _ => a == after
  | .wrap => false

def isWrap (s : Splice) : Bool := s.kind == .wrap

def bypassesGroupCheck (s : Splice) : Bool :=
  match s.kind with
  | .insert _ bypass => bypass
  | .wrap => false

/-- The rank of a splice's turn. -/
def rank (s : Splice) : Rank := ⟨s.priority, s.component⟩

/-- The order by rank. -/
def le (a b : Splice) : Bool := a.rank.le b.rank

end Splice

/-- The splices of a run, each with the signature it aims at, in declaration order. -/
abbrev SpliceIndex := List (Signature × Splice)

namespace SpliceIndex

/-- The splices that aim at a signature. -/
def aimedAt (index : SpliceIndex) (target : Signature) : List Splice :=
  (index.filter (·.1 == target)).map (·.2)

/-- The signatures aimed at, each once. -/
def targets (index : SpliceIndex) : List Signature := (index.map (·.1)).eraseDups

end SpliceIndex

end EntityWeaver
