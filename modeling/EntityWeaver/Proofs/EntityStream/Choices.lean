import EntityWeaver.EntityStream.Code

/-! Code that asks whether the entity is local.

    The code that reads network data has a choice for each field that a local entity keeps as its own.
    A choice has two sides, and a run goes along one of them:

        common line                 performed by every entity
        if(!islocal) {
            remote side             performed unless the entity is local
        } else {
            own side                performed if the entity is local
        }
        common line                 performed by every entity

    The three lines that open, change and end a choice end in a brace, and a statement ends in a
    semicolon, so a statement is never taken for one of them. -/

namespace EntityWeaver

/-! ### The lines of a block -/

namespace CodeBlock

variable (b : CodeBlock) (text header : String) (ts : List String)

@[simp] theorem texts_line : (b.line text).texts = b.texts ++ [text] := by simp [texts, line]

@[simp] theorem texts_statement : (b.statement text).texts = b.texts ++ [text ++ ";"] := by
  simp [statement]

@[simp] theorem texts_statements : (b.statements ts).texts = b.texts ++ ts.map (· ++ ";") := by
  simp [texts, statements, appendTexts, Function.comp_def]

@[simp] theorem texts_begin : (b.begin header).texts = b.texts ++ [header ++ " \x7b"] := by
  simp [texts, begin, line, deeper]

@[simp] theorem texts_next : (b.next header).texts = b.texts ++ ["\x7d " ++ header ++ " \x7b"] := by
  simp [texts, next, line, deeper, shallower]

@[simp] theorem texts_finish : b.finish.texts = b.texts ++ ["\x7d"] := by
  simp [texts, finish, line, shallower]

@[simp] theorem texts_empty : empty.texts = [] := rfl

end CodeBlock

/-! ### Running code that asks whether the entity is local -/

/-- Where a run stands: outside the choices, or on one of the two sides of a choice. -/
inductive Side where
  | common | remote | own
  deriving Repr, DecidableEq

namespace Side

/-- The side that a line leads to, if it is one that opens, changes or ends a choice. -/
def ofLine? (text : String) : Option Side :=
  if text = "if(!islocal) \x7b" then some .remote
  else if text = "\x7d else \x7b" then some .own
  else if text = "\x7d" then some .common
  else none

/-- Whether an entity goes along a side. -/
def isTaken (isLocal : Bool) : Side → Bool
  | .common => true
  | .remote => !isLocal
  | .own => isLocal

/-- The statements that are performed from a side on. -/
def performed (isLocal : Bool) : Side → List String → List String
  | _, [] => []
  | side, text :: rest =>
    match ofLine? text with
    | some next => next.performed isLocal rest
    | none => (if side.isTaken isLocal then [text] else []) ++ side.performed isLocal rest

end Side

/-- The statements of a block that an entity performs. -/
def CodeBlock.performed (b : CodeBlock) (isLocal : Bool) : List String :=
  Side.common.performed isLocal b.texts

namespace Side

variable {isLocal : Bool} {side : Side} {rest : List String}

/-- A statement is no line of a choice. -/
theorem ofLine?_statement (text : String) : ofLine? (text ++ ";") = none := by
  have hlast (line : String) (h : line.toList.getLast? ≠ some ';') : text ++ ";" ≠ line := by
    rintro rfl
    simp at h
  rw [ofLine?, if_neg (hlast _ (by decide)), if_neg (hlast _ (by decide)),
    if_neg (hlast _ (by decide))]

theorem performed_statement (text : String) :
    side.performed isLocal ((text ++ ";") :: rest) =
      (if side.isTaken isLocal then [text ++ ";"] else []) ++ side.performed isLocal rest := by
  rw [performed, ofLine?_statement]

theorem performed_statements (ts : List String) :
    side.performed isLocal (ts.map (· ++ ";") ++ rest) =
      (if side.isTaken isLocal then ts.map (· ++ ";") else []) ++ side.performed isLocal rest := by
  induction ts with
  | nil => simp
  | cons text ts ih =>
    rw [List.map_cons, List.cons_append, performed_statement, ih]
    split <;> simp

/-- A run goes along one side of a choice and then on. -/
theorem performed_choice (remote own : List String) :
    side.performed isLocal ("if(!islocal) \x7b" :: (remote.map (· ++ ";") ++
        "\x7d else \x7b" :: (own.map (· ++ ";") ++ "\x7d" :: rest))) =
      (if isLocal then own else remote).map (· ++ ";") ++ Side.common.performed isLocal rest := by
  show Side.remote.performed isLocal (_ ++ _) = _
  rw [performed_statements]
  show _ ++ Side.own.performed isLocal (_ ++ _) = _
  rw [performed_statements]
  show _ ++ (_ ++ Side.common.performed isLocal rest) = _
  cases isLocal <;> simp [isTaken]

end Side

/-! ### Reading one field -/

namespace SyncRead

variable (stream : String) (r : SyncRead) (isLocal : Bool)

/-- The expressions that an entity performs to read a field. -/
def expressions : List String := (r.steps isLocal).map (·.text stream)

/-- The lines that read a field. -/
def texts : List String :=
  if r.owned.isNone then (r.expressions stream false).map (· ++ ";")
  else "if(!islocal) \x7b" :: ((r.expressions stream false).map (· ++ ";") ++
    "\x7d else \x7b" :: ((r.expressions stream true).map (· ++ ";") ++ ["\x7d"]))

theorem texts_addTo (code : CodeBlock) : (r.addTo stream code).texts = code.texts ++ r.texts stream := by
  have hopen : "if(!islocal)" ++ " \x7b" = "if(!islocal) \x7b" := rfl
  unfold addTo texts
  cases r.owned.isNone <;> simp [expressions, hopen]

theorem texts_foldl_addTo (rs : List SyncRead) (code : CodeBlock) :
    (rs.foldl (addTo stream) code).texts = code.texts ++ rs.flatMap (texts stream) := by
  induction rs generalizing code with
  | nil => simp
  | cons r rs ih =>
    rw [List.foldl_cons, ih, texts_addTo, List.flatMap_cons, List.append_assoc]

/-- To read a field an entity performs the steps that are meant for it. -/
theorem performed_texts (rest : List String) :
    Side.common.performed isLocal (r.texts stream ++ rest) =
      (r.expressions stream isLocal).map (· ++ ";") ++ Side.common.performed isLocal rest := by
  unfold texts
  cases howned : r.owned with
  | none =>
    have hsteps : r.steps isLocal = r.steps false := by cases isLocal <;> simp [steps, howned]
    rw [Option.isNone_none, if_pos rfl, Side.performed_statements, expressions, expressions, hsteps]
    rfl
  | some owned =>
    rw [Option.isNone_some, if_neg Bool.false_ne_true]
    simp only [List.cons_append, List.append_assoc, List.nil_append]
    rw [Side.performed_choice]
    cases isLocal <;> rfl

theorem performed_flatMap_texts (rs : List SyncRead) :
    Side.common.performed isLocal (rs.flatMap (texts stream)) =
      (rs.flatMap (·.expressions stream isLocal)).map (· ++ ";") := by
  induction rs with
  | nil => rfl
  | cons r rs ih =>
    rw [List.flatMap_cons, performed_texts, ih, List.flatMap_cons, List.map_append]

end SyncRead

end EntityWeaver
