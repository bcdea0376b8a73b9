import EntityWeaver.Signature
import EntityWeaver.Declaration.Basic
import EntityWeaver.Source.Member

/-! Plans of merged methods.

    A plan is the merged method before it becomes code: a list of steps, and the helpers into which
    bodies are moved that must not end one another. A guard runs its steps only if all its predicates
    hold, and is the only step that contains others. A helper that signals returns false to make the
    merged method stop, and true at its end unless it cannot get there.

    A plan becomes the merged method followed by its helpers. Only verbatim text can fail to become
    code, when its margin cuts through a character. -/

namespace EntityWeaver

/-- One part of a merged method. -/
inductive Step where
  /-- Call a spliced method. -/
  | call (method : String)
  /-- The body of a component, as it is. -/
  | inline (component body : String)
  /-- Call a helper; one that signals can make the method return. -/
  | invoke (helper : String) (args : List String) (signal : Bool)
  /-- Set a field to a parameter. -/
  | assign (field param : String)
  /-- Run the steps if all predicates hold. -/
  | guard (predicates : List String) (steps : List Step)
  /-- Return if the entity is in the wanted state already. -/
  | reentrancy (adding : Bool)
  /-- Join or leave a group. -/
  | group (name : String) (adding : Bool)
  /-- Statements that no component wrote. -/
  | code (block : CodeBlock)
  deriving Repr

/-- A body in a method of its own. -/
structure Helper where
  name : String
  component : String
  params : List Parameter
  body : String
  /-- Returns false to make the merged method stop. -/
  signal : Bool
  deriving Repr, DecidableEq

/-- A merged method. -/
structure MethodPlan where
  signature : Signature
  returnType : String
  params : List Parameter
  isStatic : Bool
  isPrivate : Bool
  steps : List Step
  helpers : List Helper
  deriving Repr

/-- The type that holds the groups. -/
def groupsType : String := "Groups"

/-- The field that says whether an entity is in its groups. -/
def addedFlag : String := "added"

namespace Helper

/-- Whether a text is a keyword followed by nothing of the same word. -/
def startsWithWord (word : String) (s : List Char) : Bool :=
  match Text.afterStart? word.toList s with
  | none => false
  | some [] => true
  | some (c :: _) => Text.isBlank c || c == '('

/-- What sets statements apart. -/
def isStatementBreak (c : Char) : Bool := c == ';' || c == '\x7b' || c == '\x7d'

/-- The last statement of a body that ends in a semicolon, without it. -/
def lastStatement? (body : String) : Option (List Char) :=
  (Text.beforeEnd? [';'] (Text.trimEnd body.toList)).map fun text =>
    Text.trimStart (text.reverse.takeWhile (!isStatementBreak ·)).reverse

/-- Whether nothing can run behind a body: its last statement returns or throws. -/
def endsAbruptly (body : String) : Bool :=
  (lastStatement? body).any fun s => startsWithWord "return" s || startsWithWord "throw" s

/-- The method of a helper. -/
def toSource? (h : Helper) : Option SourceMethod := do
  let code ← CodeBlock.empty.raw? h.body
  return {
    name := h.name
    returnType := some (if h.signal then "boolean" else "void")
    modifiers := ["private"]
    params := h.params.map fun p => ⟨p.type, p.name⟩
    body := some (if h.signal && !endsAbruptly h.body then code.statement "return true" else code) }

end Helper

namespace Step

/-- `this.name(args)`. -/
def callText (name : String) (args : List String) : String :=
  "this." ++ name ++ "(" ++ ", ".intercalate args ++ ")"

/-- The condition that all predicates hold. -/
def condition (predicates : List String) : String :=
  "if(" ++ " && ".intercalate (predicates.map (callText · [])) ++ ")"

mutual

/-- The code with a step behind it. -/
def render? (code : CodeBlock) : Step → Option CodeBlock
  | .call method => some (code.statement (callText method []))
  | .inline _ body => code.raw? body
  | .invoke helper args signal =>
    some (if signal then code.line ("if(!" ++ callText helper args ++ ") return;")
      else code.statement (callText helper args))
  | .assign field param => some (code.statement ("this." ++ field ++ " = " ++ param))
  | .guard predicates steps =>
    (renderAll? (code.begin (condition predicates)) steps).map (·.finish)
  | .reentrancy adding =>
    some (code.line ("if(" ++ (if adding then "" else "!") ++ addedFlag ++ ") return;"))
  | .group name adding =>
    some (code.statement
      (groupsType ++ "." ++ name ++ "." ++ (if adding then "add" else "remove") ++ "(this)"))
  | .code block => some (code.append block)

/-- The code with steps behind it. -/
def renderAll? (code : CodeBlock) : List Step → Option CodeBlock
  | [] => some code
  | s :: rest => (s.render? code).bind (renderAll? · rest)

end

mutual

/-- The component bodies that a step runs, in order. -/
def bodies (helpers : List Helper) : Step → List String
  | .inline _ body => [body]
  | .invoke helper _ _ => ((helpers.find? (·.name == helper)).map (·.body)).toList
  | .guard _ steps => bodiesOfAll helpers steps
  | _ => []

/-- The component bodies that steps run, in order. -/
def bodiesOfAll (helpers : List Helper) : List Step → List String
  | [] => []
  | s :: rest => s.bodies helpers ++ bodiesOfAll helpers rest

end

end Step

namespace MethodPlan

/-- The component bodies that the method runs, in order. -/
def bodies (p : MethodPlan) : List String := Step.bodiesOfAll p.helpers p.steps

/-- The merged method itself. -/
def mainMethod? (p : MethodPlan) : Option SourceMethod := do
  let code ← Step.renderAll? .empty p.steps
  return {
    name := p.signature.name
    returnType := some p.returnType
    params := p.params.map fun q => ⟨q.type, q.name⟩
    modifiers := (if p.isPrivate then "private" else "public") ::
      if p.isStatic then ["static"] else []
    annotations := if p.isStatic ∨ p.isPrivate then [] else ["@Override"]
    body := some code }

/-- The merged method and its helpers. -/
def toSource? (p : MethodPlan) : Option (List SourceMethod) := do
  return (← p.mainMethod?) :: (← p.helpers.mapM Helper.toSource?)

end MethodPlan

end EntityWeaver
