import EntityWeaver.MethodPlan
import EntityWeaver.Proofs.CodeBlock
import EntityWeaver.Proofs.EntityStream.Revisions

/-! Generated control flow is balanced.

    Code is generated in two places. The steps of a merged method become calls on its block, and a
    guard is the only step that opens a brace:

        if(this.isTeam()) {          ┐
            ⟨the steps, as they      │ the level is that of the guard in front of it
             stand on their own⟩     │ and behind it
        }                            ┘

    The streams write statements, and choices whose number of branches depends on the history and on
    the fields. Each piece of their code leads from a level to a level, and the pieces fit together. -/

namespace EntityWeaver

open CodeBlock

namespace Step

mutual

/-- What is done to the code to put a step behind it, none if a margin cuts through a character. -/
def calls? : Step → Option (List Call)
  | .call method => some [.lines [callText method [] ++ ";"]]
  | .inline _ body => (verbatim? body).map fun texts => [.lines texts]
  | .invoke helper args signal =>
    some [.lines [if signal then "if(!" ++ callText helper args ++ ") return;"
      else callText helper args ++ ";"]]
  | .assign field param => some [.lines ["this." ++ field ++ " = " ++ param ++ ";"]]
  | .guard predicates steps =>
    (callsOfAll? steps).map fun calls => .begin (condition predicates) :: (calls ++ [.finish])
  | .reentrancy adding =>
    some [.lines ["if(" ++ (if adding then "" else "!") ++ addedFlag ++ ") return;"]]
  | .group name adding =>
    some [.lines
      [groupsType ++ "." ++ name ++ "." ++ (if adding then "add" else "remove") ++ "(this)" ++ ";"]]
  | .code block => some [.append block]

/-- What is done to the code to put steps behind it. -/
def callsOfAll? : List Step → Option (List Call)
  | [] => some []
  | s :: rest => s.calls?.bind fun calls => (callsOfAll? rest).map (calls ++ ·)

end

mutual

/-- The blocks of statements that no component wrote. -/
def blocks : Step → List CodeBlock
  | .guard _ steps => blocksOfAll steps
  | .code block => [block]
  | _ => []

/-- The blocks of statements that no component wrote, of all steps. -/
def blocksOfAll : List Step → List CodeBlock
  | [] => []
  | s :: rest => s.blocks ++ blocksOfAll rest

end

/-! ### Rendering steps -/

mutual

/-- Rendering a step is its calls. -/
theorem render?_eq (code : CodeBlock) : ∀ s : Step, s.render? code = s.calls?.map code.performAll
  | .call _ | .assign _ _ | .reentrancy _ | .group _ _ | .code _ => rfl
  | .inline _ body => by
    rw [render?, calls?, Option.map_map]
    rfl
  | .invoke _ _ signal => by cases signal <;> rfl
  | .guard predicates steps => by
    rw [render?, renderAll?_eq _ steps, calls?, Option.map_map, Option.map_map]
    congr 1
    funext calls
    exact (performAll_append (code.begin (condition predicates)) calls [.finish]).symm

theorem renderAll?_eq (code : CodeBlock) :
    ∀ steps : List Step, renderAll? code steps = (callsOfAll? steps).map code.performAll
  | [] => rfl
  | s :: rest => by
    rw [renderAll?, render?_eq code s, callsOfAll?]
    cases s.calls? with
    | none => rfl
    | some calls =>
      rw [Option.map_some, Option.bind_some, Option.bind_some, renderAll?_eq _ rest, Option.map_map]
      congr 1
      funext others
      exact (performAll_append code calls others).symm

end

/-- Calls that lead from the margin back to it, and append no other blocks than these. -/
structure LeadsBack (given : List CodeBlock) (calls : List Call) : Prop where
  level : levelBehind? 0 calls = some 0
  appended : ∀ other, .append other ∈ calls → other ∈ given

theorem leadsBack_lines (texts : List String) : LeadsBack [] [.lines texts] := ⟨rfl, by simp⟩

theorem LeadsBack.append {given given' : List CodeBlock} {calls calls' : List Call}
    (h : LeadsBack given calls) (h' : LeadsBack given' calls') :
    LeadsBack (given ++ given') (calls ++ calls') where
  level := by rw [levelBehind?_append, h.level, Option.bind_some, h'.level]
  appended other hother := (List.mem_append.1 hother).elim
    (fun hcall => List.mem_append_left _ (h.appended other hcall))
    fun hcall => List.mem_append_right _ (h'.appended other hcall)

theorem LeadsBack.guard {given : List CodeBlock} {calls : List Call} (h : LeadsBack given calls)
    (header : String) : LeadsBack given (.begin header :: (calls ++ [.finish])) where
  level := by
    have hinside : levelBehind? 1 calls = some 1 := levelBehind?_add 1 h.level
    show levelBehind? 1 (calls ++ [.finish]) = some 0
    rw [levelBehind?_append, hinside]
    rfl
  appended other hother := by
    simp only [List.mem_cons, List.mem_append, List.not_mem_nil, reduceCtorEq, or_false,
      false_or] at hother
    exact h.appended other hother

mutual

theorem leadsBack_calls? : ∀ {s : Step} {calls : List Call}, s.calls? = some calls →
    LeadsBack s.blocks calls
  | .call _, _, h | .assign _ _, _, h | .reentrancy _, _, h | .group _ _, _, h
  | .invoke _ _ _, _, h => Option.some.inj h ▸ leadsBack_lines _
  | .code block, _, h => Option.some.inj h ▸ ⟨rfl, by simp [blocks]⟩
  | .inline _ body, _, h => by
    obtain ⟨texts, -, rfl⟩ := Option.map_eq_some_iff.1 h
    exact leadsBack_lines texts
  | .guard predicates steps, _, h => by
    rw [calls?] at h
    obtain ⟨calls, hcalls, rfl⟩ := Option.map_eq_some_iff.1 h
    exact (leadsBack_callsOfAll? hcalls).guard (condition predicates)

theorem leadsBack_callsOfAll? : ∀ {steps : List Step} {calls : List Call},
    callsOfAll? steps = some calls → LeadsBack (blocksOfAll steps) calls
  | [], _, h => Option.some.inj h ▸ ⟨rfl, by simp⟩
  | s :: rest, _, h => by
    rw [callsOfAll?, Option.bind_eq_some_iff] at h
    obtain ⟨first, hfirst, h⟩ := h
    obtain ⟨others, hothers, rfl⟩ := Option.map_eq_some_iff.1 h
    exact (leadsBack_calls? hfirst).append (leadsBack_callsOfAll? hothers)

end

/-- What is put into a guard is what it is on its own, one level deeper than the guard. -/
theorem render?_guard (code : CodeBlock) (predicates : List String) (steps : List Step) :
    render? code (.guard predicates steps) = (renderAll? .empty steps).map fun inner =>
      ⟨code.lines ++ (⟨code.depth, condition predicates ++ " \x7b"⟩ ::
        (inner.lines.map fun l => ⟨code.depth + 1 + l.depth, l.text⟩) ++ [⟨code.depth, "\x7d"⟩]),
        code.depth⟩ := by
  rw [render?, renderAll?_eq, renderAll?_eq]
  cases hcalls : callsOfAll? steps with
  | none => rfl
  | some calls =>
    rw [Option.map_some, Option.map_some, Option.map_some,
      performAll_eq_append _ (leadsBack_callsOfAll? hcalls).level]
    simp [CodeBlock.append, CodeBlock.begin, CodeBlock.line, CodeBlock.deeper, CodeBlock.finish,
      CodeBlock.shallower]

end Step

namespace EntityStream

variable {s : EntityStream} {stream : String} {d e : Nat} {b b' : CodeBlock}

/-! ### The code of streams -/

theorem head?_branchHeader (version : UInt16) :
    (branchHeader version).toList.head? ≠ some '\x7d' := by
  have hfirst : (branchHeader version).toList.head? = some 'i' :=
    head?_toList_append (head?_toList_append rfl)
  rw [hfirst]
  decide

/-- The choice between revisions ends at the level where it began, however many there are. -/
theorem writes_choose (h : Writes d e b b') (reads : List RevisionRead) :
    Writes d e b (s.choose stream b' reads) := by
  cases reads with
  | nil => exact h.statement s.refusal
  | cons first rest =>
    have hfirst := (h.begin (head?_branchHeader first.version)).statements
      (first.values.map (·.text stream))
    have hrest := hfirst.foldl (fun c (r : RevisionRead) => ((Writes.refl (e + 1) c).next
      ("else " ++ branchHeader r.version)).statements (r.values.map (·.text stream))) rest
    exact ((hrest.next "else").statement s.refusal).finish

/-- The reading of a field ends at the level where it began, whether there is a choice or not. -/
theorem writes_addTo (stream : String) (b : CodeBlock) (r : SyncRead) :
    Writes d d b (r.addTo stream b) := by
  have hstart := Writes.refl d b
  unfold SyncRead.addTo
  cases r.owned.isNone with
  | true => exact hstart.statements _
  | false => exact ((((hstart.begin (by decide)).statements _).next "else").statements _).finish

theorem writes_stamp : Writes 0 0 .empty stamp :=
  ((Writes.refl 0 .empty).line (by decide)).statement "lastUpdated = Time.millis()"

theorem writes_interpolate (s : EntityStream) : Writes 0 0 .empty s.interpolate.code := by
  have hstart := Writes.refl 0 .empty
  simp only [interpolate]
  split
  · exact hstart
  · exact ((((hstart.begin (by decide)).statements _).next "else if(lastUpdated != 0)").statements
      _).finish

/-- Code for a method leads from the margin back to it. -/
theorem writes_of_codeFor {m : MethodDecl} {history : List Revision} {injected : InjectedCode}
    (h : s.codeFor m history = .ok (some injected)) : Writes 0 0 .empty injected.code := by
  have hstart := Writes.refl 0 .empty
  cases carries_of_codeFor h with
  | write hname hparam hcode =>
    obtain ⟨values, -, hcode⟩ := bind_eq_ok.1 hcode
    obtain rfl := Except.ok.inj hcode
    exact hstart.statements _
  | read hname hparam hcode =>
    obtain ⟨reads, -, hcode⟩ := bind_eq_ok.1 hcode
    obtain rfl := Except.ok.inj hcode
    exact writes_choose (hstart.statement _) reads
  | writeSync hname hparam hcode =>
    obtain ⟨values, -, hcode⟩ := bind_eq_ok.1 hcode
    obtain rfl := Except.ok.inj hcode
    exact hstart.statements _
  | readSync hname hparam hcode =>
    obtain ⟨reads, -, hcode⟩ := bind_eq_ok.1 hcode
    obtain rfl := Except.ok.inj hcode
    exact (writes_stamp.statement _).foldl (writes_addTo _) reads
  | writeSyncManual hname hparam => exact hstart.statements _
  | readSyncManual hname hparam => exact writes_stamp.statements _
  | interpolate hname => exact writes_interpolate s
  | snapSync hname => exact hstart.statements _
  | snapInterpolation hname => exact hstart.statements _

end EntityStream

/-! ### Both -/

/-- Steps do not close a brace that they did not open, and leave the code at the depth where it was;
    what is in a guard stands one level deeper than the guard; balanced blocks and balanced code give
    balanced code. The code of streams is balanced, and its lines show it. -/
theorem controlFlow_balanced :
    (∀ steps : List Step,
      (∀ code, Step.renderAll? code steps = (Step.callsOfAll? steps).map code.performAll) ∧
      (∀ calls, Step.callsOfAll? steps = some calls → ∀ d, levelBehind? d calls = some d) ∧
      (∀ code rendered, Step.renderAll? code steps = some rendered →
        rendered.depth = code.depth) ∧
      (∀ code predicates, Step.render? code (.guard predicates steps) =
        (Step.renderAll? .empty steps).map fun inner =>
          ⟨code.lines ++ (⟨code.depth, Step.condition predicates ++ " \x7b"⟩ ::
            (inner.lines.map fun l => ⟨code.depth + 1 + l.depth, l.text⟩) ++
            [⟨code.depth, "\x7d"⟩]), code.depth⟩) ∧
      ((∀ block ∈ Step.blocksOfAll steps, block.Balanced) → ∀ code rendered, code.Balanced →
        Step.renderAll? code steps = some rendered → rendered.Balanced)) ∧
    ∀ (s : EntityStream) (m : MethodDecl) (history : List Revision) (injected : InjectedCode),
      s.codeFor m history = .ok (some injected) → injected.code.Balanced ∧ injected.code.Nested := by
  refine ⟨fun steps => ⟨fun code => Step.renderAll?_eq code steps, fun calls hcalls d => ?_,
    fun code rendered hrender => ?_, fun code predicates => Step.render?_guard code predicates steps,
    fun hblocks code rendered hcode hrender => ?_⟩,
    fun s m history injected hcode => (EntityStream.writes_of_codeFor hcode).balanced⟩
  · exact levelBehind?_add d (Step.leadsBack_callsOfAll? hcalls).level
  · rw [Step.renderAll?_eq] at hrender
    obtain ⟨calls, hcalls, rfl⟩ := Option.map_eq_some_iff.1 hrender
    exact depth_performAll (levelBehind?_add code.depth (Step.leadsBack_callsOfAll? hcalls).level)
  · rw [Step.renderAll?_eq] at hrender
    obtain ⟨calls, hcalls, rfl⟩ := Option.map_eq_some_iff.1 hrender
    have hback := Step.leadsBack_callsOfAll? hcalls
    exact hcode.performAll hback.level fun other hother => hblocks other (hback.appended other hother)

/-- A guard in a guard, around statements that no component wrote. -/
def guardedSteps (block : CodeBlock) : List Step :=
  [.guard ["isTeam"] [.call "update", .guard ["canLoad"] [.code block]], .group "all" true]

/-- The code that loads a unit, between two guards. -/
theorem controlFlow_balanced_unit :
    EntityStream.unitLoading.Balanced ∧ EntityStream.unitLoading.Nested ∧
      ∃ rendered, Step.renderAll? .empty (guardedSteps EntityStream.unitLoading) = some rendered ∧
        rendered.depth = 0 ∧ rendered.Balanced := by
  obtain ⟨hsteps, hstreams⟩ := controlFlow_balanced
  obtain ⟨hbalanced, hnested⟩ := hstreams _ _ _ _ EntityStream.codeFor_read_unitStream
  obtain ⟨-, -, hdepth, -, hrendered⟩ := hsteps (guardedSteps EntityStream.unitLoading)
  have hempty : (CodeBlock.empty.performAll []).Balanced := .made rfl (by simp)
  exact ⟨hbalanced, hnested, _, rfl, hdepth _ _ rfl,
    hrendered (List.forall_mem_singleton.2 hbalanced) _ _ hempty rfl⟩

example : (Step.renderAll? .empty (guardedSteps (CodeBlock.empty.statement "load()"))).map (·.lines) =
    some [⟨0, "if(this.isTeam()) \x7b"⟩, ⟨1, "this.update();"⟩, ⟨1, "if(this.canLoad()) \x7b"⟩,
      ⟨2, "load();"⟩, ⟨1, "\x7d"⟩, ⟨0, "\x7d"⟩, ⟨0, "Groups.all.add(this);"⟩] := by rfl

end EntityWeaver
