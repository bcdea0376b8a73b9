import EntityWeaver.EntityStream.Code
import EntityWeaver.Proofs.Except
import EntityWeaver.Proofs.FieldSet
import EntityWeaver.Proofs.Sorting

/-! Saved data is read back under every revision.

    The code that loads an entity is a line that takes the revision number and a chain of branches,
    one for each revision. A branch is a line at the margin with the statements below it:

        short REV = read.s();
        if(REV == 0) {              ┐
            read.i();               │ the branch of revision 0
        } else if(REV == 1) {       ┐
            health = read.f();      │ the branch of revision 1
        } else {
            throw …;
        }

    The statements of a branch take the values of the revision's layout one by one. Under the present
    layout they are the values that saving writes, each into the field that it was written from. -/

namespace EntityWeaver

/-! ### Sections of a block -/

/-- A line at the margin, and the deeper lines behind it. -/
structure Section where
  head : String
  body : List String
  deriving Repr, DecidableEq

namespace Section

/-- The deeper lines that come first, and the sections behind them. -/
def split : List CodeLine → List String × List Section
  | [] => ([], [])
  | l :: rest =>
    let (body, sections) := split rest
    if l.depth = 0 then ([], ⟨l.text, body⟩ :: sections) else (l.text :: body, sections)

/-- The lines of a section, which stand one level below its head. -/
def lines (s : Section) : List CodeLine := ⟨0, s.head⟩ :: s.body.map (⟨1, ·⟩)

theorem split_deeper (body : List String) (ls : List CodeLine) :
    split (body.map (⟨1, ·⟩) ++ ls) = (body ++ (split ls).1, (split ls).2) := by
  induction body with
  | nil => rfl
  | cons text rest ih => simp [split, ih]

/-- Lines written section by section fall into these sections. -/
theorem split_lines (ss : List Section) : split (ss.flatMap lines) = ([], ss) := by
  induction ss with
  | nil => rfl
  | cons s rest ih => simp [lines, split, split_deeper, ih]

/-- The line that opens the branch for a revision number. -/
def guard (version : UInt16) : String := "if(REV == " ++ Text.digits version.toNat ++ ") \x7b"

/-- The section is the branch for a revision number, behind another branch or not. -/
def guards (version : UInt16) (s : Section) : Bool :=
  s.head == guard version || s.head == "\x7d else " ++ guard version

end Section

/-- The sections of a block. -/
def CodeBlock.sections (b : CodeBlock) : List Section := (Section.split b.lines).2

namespace EntityStream

variable {s : EntityStream} {stream : String}

/-- The statements that take values from a stream. -/
def statementsOf (stream : String) (values : List ValueRead) : List String :=
  values.map fun v => v.text stream ++ ";"

/-! ### The chain of branches -/

/-- The branch of a revision, behind another one or not. -/
def branch (stream : String) (lead : String) (r : RevisionRead) : Section :=
  ⟨lead ++ branchHeader r.version ++ " \x7b", statementsOf stream r.values⟩

/-- The branches of revisions, the first of which opens the chain. -/
def branches (stream : String) : List RevisionRead → List Section
  | [] => []
  | first :: rest => branch stream "" first :: rest.map (branch stream "\x7d else ")

/-- What stands behind the branches and refuses every other revision. -/
def refusing (s : EntityStream) (reads : List RevisionRead) : List Section :=
  if reads = [] then [⟨s.refusal ++ ";", []⟩] else [⟨"\x7d else \x7b", [s.refusal ++ ";"]⟩, ⟨"\x7d", []⟩]

/-- The sections of the code that reads revisions. -/
def chain (s : EntityStream) (stream : String) (reads : List RevisionRead) : List Section :=
  ⟨"short REV = " ++ stream ++ ".s();", []⟩ :: (branches stream reads ++ s.refusing reads)

/-- Going on with a revision appends its branch. -/
theorem next_statements (lines : List CodeLine) (r : RevisionRead) :
    ((CodeBlock.mk lines 1).next ("else " ++ branchHeader r.version)).statements
        (r.values.map (·.text stream)) =
      ⟨lines ++ (branch stream "\x7d else " r).lines, 1⟩ := by
  have hlead : "\x7d " ++ "else " = "\x7d else " := rfl
  simp only [CodeBlock.next, CodeBlock.shallower, CodeBlock.line, CodeBlock.deeper,
    CodeBlock.statements, CodeBlock.appendTexts, branch, statementsOf, Section.lines, ← hlead,
    String.append_assoc, List.map_map, Function.comp_def, List.append_assoc, List.singleton_append]

theorem foldl_next (lines : List CodeLine) (rest : List RevisionRead) :
    rest.foldl (fun (code : CodeBlock) r => (code.next ("else " ++ branchHeader r.version)).statements
        (r.values.map (·.text stream))) ⟨lines, 1⟩ =
      ⟨lines ++ (rest.map (branch stream "\x7d else ")).flatMap Section.lines, 1⟩ := by
  induction rest generalizing lines with
  | nil => simp
  | cons r rest ih =>
    rw [List.foldl_cons, next_statements, ih]
    simp

/-- The code that reads revisions falls into the sections of the chain. -/
theorem lines_read {history : List Revision} {code : CodeBlock}
    (h : s.read stream history = .ok code) :
    ∃ reads, s.loaded history = .ok reads ∧ code.lines = (s.chain stream reads).flatMap Section.lines := by
  obtain ⟨reads, hreads, h⟩ := bind_eq_ok.1 h
  obtain rfl := Except.ok.inj h
  refine ⟨reads, hreads, ?_⟩
  have hnumber : (CodeBlock.empty.statement ("short REV = " ++ stream ++ ".s()")) =
      ⟨(Section.mk ("short REV = " ++ stream ++ ".s();") []).lines, 0⟩ := by
    have hclose : ".s()" ++ ";" = ".s();" := rfl
    simp [CodeBlock.statement, CodeBlock.line, CodeBlock.empty, Section.lines, ← hclose,
      String.append_assoc]
  rw [hnumber]
  cases reads with
  | nil =>
    simp [chain, branches, refusing, choose, Section.lines, CodeBlock.statement, CodeBlock.line]
  | cons first rest =>
    have hopen (lines : List CodeLine) : ((CodeBlock.mk lines 0).begin
        (branchHeader first.version)).statements (first.values.map (·.text stream)) =
        ⟨lines ++ (branch stream "" first).lines, 1⟩ := by
      simp [CodeBlock.begin, CodeBlock.line, CodeBlock.deeper, CodeBlock.statements,
        CodeBlock.appendTexts, branch, statementsOf, Section.lines, Function.comp_def]
    rw [choose, hopen, foldl_next]
    simp [chain, branches, refusing, CodeBlock.next, CodeBlock.finish, CodeBlock.shallower,
      CodeBlock.line, CodeBlock.deeper, CodeBlock.statement, Section.lines]

/-! ### One branch for each revision -/

theorem digits_injective : Function.Injective Text.digits := by
  intro m n h
  have hdigits : Nat.toDigits 10 m = Nat.toDigits 10 n := String.ofList_injective h
  rw [← Nat.ofDigitChars_ten_toDigits (n := m), hdigits, Nat.ofDigitChars_ten_toDigits]

theorem guard_inj {v w : UInt16} : Section.guard v = Section.guard w ↔ v = w := by
  rw [Section.guard, Section.guard, String.append_left_inj, String.append_right_inj,
    digits_injective.eq_iff, UInt16.toNat_inj]

theorem head_branch (stream lead : String) (r : RevisionRead) :
    (branch stream lead r).head = lead ++ Section.guard r.version := by
  have hclose : ")" ++ " \x7b" = ") \x7b" := rfl
  simp only [branch, branchHeader, Section.guard, ← hclose, String.append_assoc]

/-- A branch is the one for the number of its revision only. -/
theorem guards_branch {lead : String} (hlead : lead = "" ∨ lead = "\x7d else ") (v : UInt16)
    (r : RevisionRead) : (branch stream lead r).guards v = (r.version == v) := by
  have hopen (u w : UInt16) : Section.guard u ≠ "\x7d else " ++ Section.guard w := by
    intro h
    have hchars := congrArg String.toList h
    simp [Section.guard] at hchars
  rw [Section.guards, head_branch, Bool.eq_iff_iff]
  rcases hlead with rfl | rfl
  · simp [guard_inj, hopen]
  · simp [guard_inj, (hopen _ _).symm]

theorem filter_branches (stream : String) {reads : List RevisionRead} (hversions : (reads.map (·.version)).Nodup)
    {r : RevisionRead} (hr : r ∈ reads) :
    ∃ lead, (branches stream reads).filter (·.guards r.version) = [branch stream lead r] := by
  have hmap (lead : String) (hlead : lead = "" ∨ lead = "\x7d else ") (rs : List RevisionRead) :
      (rs.map (branch stream lead)).filter (·.guards r.version) =
        (rs.filter (·.version == r.version)).map (branch stream lead) := by
    rw [List.filter_map]
    simp only [Function.comp_def, guards_branch hlead]
  have hone := filter_key_eq hversions hr
  cases reads with
  | nil => cases hr
  | cons first rest =>
    have hfirst := hmap "" (.inl rfl) [first]
    have hrest := hmap "\x7d else " (.inr rfl) rest
    rw [List.map_singleton] at hfirst
    rw [branches, ← List.singleton_append, List.filter_append, hfirst, hrest]
    by_cases hv : first.version = r.version
    · simp only [List.filter_cons, hv, beq_self_eq_true, if_true, List.cons_eq_cons] at hone
      obtain ⟨rfl, hnone⟩ := hone
      exact ⟨"", by simp [hnone]⟩
    · simp only [List.filter_cons, beq_eq_false_iff_ne.2 hv, Bool.false_eq_true, if_false] at hone
      exact ⟨"\x7d else ", by simp [hone, hv]⟩

theorem guards_eq_false_iff {v : UInt16} {b : Section} :
    b.guards v = false ↔ b.head.toList ≠ (Section.guard v).toList ∧
      b.head.toList ≠ ("\x7d else " ++ Section.guard v).toList := by
  rw [Section.guards, Bool.or_eq_false_iff, beq_eq_false_iff_ne, beq_eq_false_iff_ne, ne_eq, ne_eq,
    ne_eq, ne_eq, String.toList_inj, String.toList_inj]

theorem head?_toList_append {a b : String} {c : Char} (h : a.toList.head? = some c) :
    (a ++ b).toList.head? = some c := by
  rw [String.toList_append, List.head?_append, h]
  rfl

/-- A line that starts with neither of their first characters opens no branch. -/
theorem not_guards_of_head? {v : UInt16} {b : Section} {c : Char}
    (h : b.head.toList.head? = some c) (hfirst : c ≠ 'i') (hnext : c ≠ '\x7d') :
    b.guards v = false := by
  have hguard : (Section.guard v).toList.head? = some 'i' := by simp [Section.guard]
  have helse : ("\x7d else " ++ Section.guard v).toList.head? = some '\x7d' := by simp
  refine guards_eq_false_iff.2 ⟨fun he => hfirst ?_, fun he => hnext ?_⟩
  · rw [he, hguard] at h
    exact (Option.some.inj h).symm
  · rw [he, helse] at h
    exact (Option.some.inj h).symm

/-- What refuses other revisions is not the branch of a revision. -/
theorem not_guards_refusing {reads : List RevisionRead} (v : UInt16) {b : Section}
    (hb : b ∈ s.refusing reads) : b.guards v = false := by
  unfold refusing at hb
  split at hb
  · rw [List.mem_singleton.1 hb]
    have hthrow : (s.refusal ++ ";").toList.head? = some 't' :=
      head?_toList_append (head?_toList_append (head?_toList_append rfl))
    exact not_guards_of_head? hthrow (by decide) (by decide)
  · simp only [List.mem_cons, List.not_mem_nil, or_false] at hb
    rw [guards_eq_false_iff]
    rcases hb with rfl | rfl
    · simp [Section.guard]
    · simp [Section.guard]

/-- The code holds one branch for each revision. -/
theorem filter_chain (s : EntityStream) (stream : String) {reads : List RevisionRead}
    (hversions : (reads.map (·.version)).Nodup) {r : RevisionRead} (hr : r ∈ reads) :
    ∃ lead, (s.chain stream reads).filter (·.guards r.version) = [branch stream lead r] := by
  obtain ⟨lead, hbranch⟩ := filter_branches stream hversions hr
  have hnumber : (Section.mk ("short REV = " ++ stream ++ ".s();") []).guards r.version = false :=
    not_guards_of_head? (head?_toList_append (head?_toList_append rfl)) (by decide) (by decide)
  have hrefusing : (s.refusing reads).filter (·.guards r.version) = [] :=
    List.filter_eq_nil_iff.2 fun b hb => by simp [not_guards_refusing r.version hb]
  refine ⟨lead, ?_⟩
  rw [chain, List.filter_cons_of_neg (by simp [hnumber]), List.filter_append, hbranch,
    hrefusing, List.append_nil]

/-! ### The values of a revision -/

/-- Some field has the name and the type that a layout records. -/
def Holds (s : EntityStream) (entry : LayoutField) : Prop :=
  ∃ f ∈ s.fields.fields, f.name = entry.name ∧ normalType f.decl.type = entry.type

/-- A value is taken by the codec of the recorded type, a primitive one by the stream, and goes into
    the field that has the recorded name and type, or nowhere if there is none. -/
structure TakesEntry (s : EntityStream) (entry : LayoutField) (v : ValueRead) : Prop where
  codec : s.codecs.reader? entry.type = some v.codec
  primitive : ∀ p, Primitive.ofType? entry.type = some p → v.codec = .primitive p
  stored : s.Holds entry → v.target = some entry.name
  dropped : ¬s.Holds entry → v.target = none

/-- A value is read into the field that it was written from, by the same stream method if it has
    one. -/
structure ReadsBack (w : ValueWrite) (v : ValueRead) : Prop where
  target : v.target = some w.field
  primitive : ∀ p, w.codec = .primitive p ↔ v.codec = .primitive p

theorem takes_iff (hnames : s.fields.names.Nodup) (entry : LayoutField) :
    s.takes entry = true ↔ s.Holds entry := by
  simp only [takes, Option.any_eq_true, FieldSet.get?_eq_some_iff hnames, beq_iff_eq, Holds, and_assoc]

theorem entryRead_eq_ok {entry : LayoutField} {v : ValueRead} :
    s.entryRead entry = .ok v ↔ s.codecs.reader? entry.type = some v.codec ∧
      v.target = if s.takes entry then some entry.name else none := by
  obtain ⟨codec, target⟩ := v
  unfold entryRead valueRead
  cases s.codecs.reader? entry.type with
  | none => simp
  | some c =>
    rw [Except.ok.injEq, ValueRead.mk.injEq, Option.some.injEq, @eq_comm _ target]

theorem valueWrite_eq_ok {net : Bool} {f : FieldDecl} {w : ValueWrite} :
    s.valueWrite net f = .ok w ↔ s.codecs.writer? f.type net = some w.codec ∧ w.field = f.name := by
  obtain ⟨field, codec⟩ := w
  unfold valueWrite
  cases s.codecs.writer? f.type net with
  | none => simp
  | some c =>
    rw [Except.ok.injEq, ValueWrite.mk.injEq, Option.some.injEq, @eq_comm _ f.name, and_comm]

theorem takesEntry_of_entryRead (hnames : s.fields.names.Nodup) {entry : LayoutField} {v : ValueRead}
    (h : s.entryRead entry = .ok v) : s.TakesEntry entry v := by
  obtain ⟨hcodec, htarget⟩ := entryRead_eq_ok.1 h
  refine ⟨hcodec, fun p => (CodecTable.reader?_primitive hcodec).2, fun hholds => ?_, fun hholds => ?_⟩
  · rw [htarget, if_pos ((takes_iff hnames entry).2 hholds)]
  · rw [htarget, if_neg (mt (takes_iff hnames entry).1 hholds)]

/-- The present fields are held under the present layout. -/
theorem holds_of_mem_serialized {f : FieldDecl} (hf : f ∈ s.serialized) :
    s.Holds ⟨f.name, normalType f.type⟩ := by
  unfold serialized FieldDecl.serialized at hf
  have hdecl := List.mem_of_mem_filter (List.mem_mergeSort.1 hf)
  obtain ⟨g, hg, rfl⟩ := List.mem_map.1 hdecl
  exact ⟨g, hg, rfl, rfl⟩

/-- What is written of a present field is read back. -/
theorem readsBack_of_mem_serialized (hnames : s.fields.names.Nodup) {f : FieldDecl}
    (hf : f ∈ s.serialized) {w : ValueWrite} {v : ValueRead} (hw : s.valueWrite false f = .ok w)
    (hv : s.entryRead ⟨f.name, normalType f.type⟩ = .ok v) : ReadsBack w v := by
  obtain ⟨hwriter, hfield⟩ := valueWrite_eq_ok.1 hw
  have htakes := takesEntry_of_entryRead hnames hv
  refine ⟨?_, fun p => ?_⟩
  · rw [htakes.stored (holds_of_mem_serialized hf), hfield]
  · rw [CodecTable.writer?_primitive hwriter, CodecTable.reader?_primitive htakes.codec,
      Primitive.ofType?_normalType]

/-- What two lists have to do with the same list, they have to do with each other. -/
theorem forall₂_of_common {α β γ : Type} {R : α → β → Prop} {S : α → γ → Prop} {T : β → γ → Prop}
    {xs : List α} {ys : List β} {zs : List γ} (hR : List.Forall₂ R xs ys) (hS : List.Forall₂ S xs zs)
    (h : ∀ x ∈ xs, ∀ y z, R x y → S x z → T y z) : List.Forall₂ T ys zs := by
  induction hR generalizing zs with
  | nil =>
    cases hS
    exact .nil
  | cons hxy _ ih =>
    cases hS with
    | cons hxz hS =>
      refine .cons (h _ List.mem_cons_self _ _ hxy hxz) (ih hS fun x hx => ?_)
      exact h x (List.mem_cons_of_mem _ hx)

/-- Under the present layout loading reads back what saving writes, value by value. -/
theorem forall₂_readsBack (hnames : s.fields.names.Nodup) {writes : List ValueWrite}
    {reads : List ValueRead} (hwrites : s.saved = .ok writes)
    (hreads : s.fields.layout.mapM s.entryRead = .ok reads) : List.Forall₂ ReadsBack writes reads := by
  have hwrites := mapM_eq_ok.1 hwrites
  have hreads := List.forall₂_map_left_iff.1 (mapM_eq_ok.1 hreads)
  exact forall₂_of_common hwrites hreads fun f hf w v => readsBack_of_mem_serialized hnames hf

/-- Each serialized field is written under its name. -/
theorem map_field_saved {writes : List ValueWrite} (h : s.saved = .ok writes) :
    writes.map (·.field) = s.serialized.map (·.name) := by
  have hnames : List.Forall₂ (· = ·) (writes.map (·.field)) (s.serialized.map (·.name)) := by
    rw [List.forall₂_map_left_iff, List.forall₂_map_right_iff]
    exact ((mapM_eq_ok.1 h).imp fun f w hw => (valueWrite_eq_ok.1 hw).2).flip
  rwa [List.forall₂_eq_eq_eq] at hnames

/-! ### The revisions of a history -/

theorem revisionRead_eq_ok {r : Revision} {rr : RevisionRead} :
    s.revisionRead r = .ok rr ↔ r.fields.mapM s.entryRead = .ok rr.values ∧ rr.version = r.version := by
  rw [revisionRead, map_eq_ok]
  constructor
  · rintro ⟨values, hvalues, rfl⟩
    exact ⟨hvalues, rfl⟩
  · rintro ⟨hvalues, hversion⟩
    exact ⟨rr.values, hvalues, by rw [← hversion]⟩

/-- Each revision is read under its own number. -/
theorem map_version_loaded {history : List Revision} {reads : List RevisionRead}
    (h : s.loaded history = .ok reads) : reads.map (·.version) = history.map (·.version) := by
  have hversions : List.Forall₂ (· = ·) (reads.map (·.version)) (history.map (·.version)) := by
    rw [List.forall₂_map_left_iff, List.forall₂_map_right_iff]
    exact ((mapM_eq_ok.1 h).imp fun r rr hr => (revisionRead_eq_ok.1 hr).2).flip
  rwa [List.forall₂_eq_eq_eq] at hversions

theorem exists_read_of_mem {history : List Revision} {reads : List RevisionRead}
    (h : s.loaded history = .ok reads) {r : Revision} (hr : r ∈ history) :
    ∃ rr ∈ reads, s.revisionRead r = .ok rr :=
  exists_of_forall₂ (mapM_eq_ok.1 h) hr

/-- The branch of a revision takes the values of its layout. -/
theorem exists_branch {history : List Revision} {code : CodeBlock}
    (hversions : (history.map (·.version)).Nodup) (h : s.read stream history = .ok code)
    {r : Revision} (hr : r ∈ history) :
    ∃ head values, code.sections.filter (·.guards r.version) = [⟨head, statementsOf stream values⟩] ∧
      r.fields.mapM s.entryRead = .ok values := by
  obtain ⟨reads, hreads, hlines⟩ := lines_read h
  obtain ⟨rr, hrr, hread⟩ := exists_read_of_mem hreads hr
  obtain ⟨hvalues, hversion⟩ := revisionRead_eq_ok.1 hread
  rw [← map_version_loaded hreads] at hversions
  obtain ⟨lead, hbranch⟩ := filter_chain s stream hversions hrr
  refine ⟨(branch stream lead rr).head, rr.values, ?_, hvalues⟩
  rw [CodeBlock.sections, hlines, Section.split_lines, ← hversion]
  exact hbranch

/-! ### The code of a method -/

/-- The code of a method, by its name and its parameter. -/
inductive Carries (s : EntityStream) (history : List Revision) (m : MethodDecl) :
    InjectedCode → Prop where
  | write {stream : String} {code : CodeBlock} (hname : m.name = "write")
      (hparam : m.params.head?.map (·.name) = some stream)
      (hcode : s.write stream history = .ok code) : Carries s history m ⟨code, []⟩
  | read {stream : String} {code : CodeBlock} (hname : m.name = "read")
      (hparam : m.params.head?.map (·.name) = some stream)
      (hcode : s.read stream history = .ok code) : Carries s history m ⟨code, []⟩
  | writeSync {stream : String} {code : CodeBlock} (hname : m.name = "writeSync")
      (hparam : m.params.head?.map (·.name) = some stream)
      (hcode : s.writeSync stream = .ok code) : Carries s history m ⟨code, []⟩
  | readSync {stream : String} {code : InjectedCode} (hname : m.name = "readSync")
      (hparam : m.params.head?.map (·.name) = some stream)
      (hcode : s.readSync stream = .ok code) : Carries s history m code
  | writeSyncManual {buffer : String} (hname : m.name = "writeSyncManual")
      (hparam : m.params.head?.map (·.name) = some buffer) :
      Carries s history m ⟨s.writeSyncManual buffer, []⟩
  | readSyncManual {buffer : String} (hname : m.name = "readSyncManual")
      (hparam : m.params.head?.map (·.name) = some buffer) :
      Carries s history m (s.readSyncManual buffer)
  | interpolate (hname : m.name = "interpolate") : Carries s history m s.interpolate
  | snapSync (hname : m.name = "snapSync") : Carries s history m s.snapSync
  | snapInterpolation (hname : m.name = "snapInterpolation") :
      Carries s history m ⟨s.snapInterpolation, []⟩

theorem eq_of_synced {x : Except AuthoringError (Option InjectedCode)} {code : InjectedCode}
    (h : (if s.synced then x else .ok none) = .ok (some code)) : x = .ok (some code) := by
  split at h
  · exact h
  · cases h

theorem eq_of_some_synced {x code : InjectedCode}
    (h : (.ok (if s.synced then some x else none) : Except AuthoringError _) = .ok (some code)) :
    x = code := by
  split at h
  · cases h
    rfl
  · cases h

/-- Every method carries the code that its name and its parameter call for. -/
theorem carries_of_codeFor {m : MethodDecl} {history : List Revision} {code : InjectedCode}
    (h : s.codeFor m history = .ok (some code)) : s.Carries history m code := by
  unfold codeFor at h
  split at h
  · next hname hparam =>
    obtain ⟨c, hc, hcode⟩ := map_eq_ok.1 h
    exact Option.some.inj hcode ▸ .write hname hparam hc
  · next hname hparam =>
    obtain ⟨c, hc, hcode⟩ := map_eq_ok.1 h
    exact Option.some.inj hcode ▸ .read hname hparam hc
  · next hname hparam =>
    obtain ⟨c, hc, hcode⟩ := map_eq_ok.1 (eq_of_synced h)
    exact Option.some.inj hcode ▸ .writeSync hname hparam hc
  · next hname hparam =>
    obtain ⟨c, hc, hcode⟩ := map_eq_ok.1 (eq_of_synced h)
    exact Option.some.inj hcode ▸ .readSync hname hparam hc
  · next hname hparam => exact eq_of_some_synced h ▸ .writeSyncManual hname hparam
  · next hname hparam => exact eq_of_some_synced h ▸ .readSyncManual hname hparam
  · next hname _ => exact eq_of_some_synced h ▸ .interpolate hname
  · next hname _ => exact eq_of_some_synced h ▸ .snapSync hname
  · next hname _ => exact eq_of_some_synced h ▸ .snapInterpolation hname
  · cases h

theorem codeFor_write {m : MethodDecl} {history : List Revision} {code : InjectedCode}
    (hm : m.name = "write") (h : s.codeFor m history = .ok (some code)) :
    ∃ stream, m.params.head?.map (·.name) = some stream ∧ s.write stream history = .ok code.code := by
  cases carries_of_codeFor h
  case write stream code hname hparam hcode => exact ⟨stream, hparam, hcode⟩
  all_goals simp_all

theorem codeFor_read {m : MethodDecl} {history : List Revision} {code : InjectedCode}
    (hm : m.name = "read") (h : s.codeFor m history = .ok (some code)) :
    ∃ stream, m.params.head?.map (·.name) = some stream ∧ s.read stream history = .ok code.code := by
  cases carries_of_codeFor h
  case read stream code hname hparam hcode => exact ⟨stream, hparam, hcode⟩
  all_goals simp_all

/-- Saving writes the newest revision number and the values of the serialized fields. -/
theorem texts_write {history : List Revision} {code : CodeBlock} {r : Revision}
    (hlast : history.getLast? = some r) (h : s.write stream history = .ok code) :
    ∃ writes, s.saved = .ok writes ∧ code.texts = (stream ++ ".s(" ++ Text.digits r.version.toNat ++
      ");") :: writes.map fun w => w.text stream ++ ";" := by
  obtain ⟨writes, hwrites, h⟩ := bind_eq_ok.1 h
  obtain rfl := Except.ok.inj h
  refine ⟨writes, hwrites, ?_⟩
  have hclose : ")" ++ ";" = ");" := rfl
  simp [CodeBlock.texts, CodeBlock.statements, CodeBlock.appendTexts, CodeBlock.empty, hlast,
    ← hclose, String.append_assoc, Function.comp_def]

/-- The code that loads an entity takes the revision number and has one branch for each revision, which
    takes the values of its layout one by one. Under the present layout these are the values that the
    code that saves the entity writes, each read into the field that it was written from. -/
theorem read_matches_write {scope : FieldSet.Scope} {components : List ComponentDecl}
    {history : List Revision} {writing reading : MethodDecl} {written read : InjectedCode}
    (hfields : s.fields = (FieldSet.merge scope components).1)
    (hversions : (history.map (·.version)).Nodup)
    (hwriting : writing.name = "write") (hreading : reading.name = "read")
    (hwritten : s.codeFor writing history = .ok (some written))
    (hread : s.codeFor reading history = .ok (some read)) :
    ∃ out inp, writing.params.head?.map (·.name) = some out ∧
      reading.params.head?.map (·.name) = some inp ∧
      read.code.lines.head? = some ⟨0, "short REV = " ++ inp ++ ".s();"⟩ ∧
      read.code.sections.head? = some ⟨"short REV = " ++ inp ++ ".s();", []⟩ ∧
      (∀ r ∈ history, ∃ head values,
        read.code.sections.filter (·.guards r.version) = [⟨head, statementsOf inp values⟩] ∧
          List.Forall₂ s.TakesEntry r.fields values) ∧
      ∀ r, history.getLast? = some r → r.fields = s.fields.layout → ∃ head writes values,
        written.code.texts = (out ++ ".s(" ++ Text.digits r.version.toNat ++ ");") ::
          writes.map (fun w : ValueWrite => w.text out ++ ";") ∧
        writes.map (·.field) = s.serialized.map (·.name) ∧
        read.code.sections.filter (·.guards r.version) = [⟨head, statementsOf inp values⟩] ∧
        List.Forall₂ ReadsBack writes values := by
  have hnames : s.fields.names.Nodup := hfields ▸ FieldSet.names_nodup_merge scope components
  obtain ⟨out, hout, hwrite⟩ := codeFor_write hwriting hwritten
  obtain ⟨inp, hinp, hread⟩ := codeFor_read hreading hread
  refine ⟨out, inp, hout, hinp, ?_, ?_, fun r hr => ?_, fun r hlast hlayout => ?_⟩
  · obtain ⟨reads, -, hlines⟩ := lines_read hread
    rw [hlines]
    rfl
  · obtain ⟨reads, -, hlines⟩ := lines_read hread
    rw [CodeBlock.sections, hlines, Section.split_lines]
    rfl
  · obtain ⟨head, values, hbranch, hvalues⟩ := exists_branch hversions hread hr
    exact ⟨head, values, hbranch, (mapM_eq_ok.1 hvalues).imp fun _ _ => takesEntry_of_entryRead hnames⟩
  · obtain ⟨head, values, hbranch, hvalues⟩ :=
      exists_branch hversions hread (List.mem_of_getLast? hlast)
    obtain ⟨writes, hwrites, htexts⟩ := texts_write hlast hwrite
    exact ⟨head, writes, values, htexts, map_field_saved hwrites, hbranch,
      forall₂_readsBack hnames hwrites (hlayout ▸ hvalues)⟩

/-- The fields of a unit, one of which is not saved. -/
def unitScope : FieldSet.Scope := ⟨"Mech", none, false, none⟩

def unitComponents : List ComponentDecl :=
  [{ name := "UnitComp"
     fields := [{ name := "team", type := "Team" }, { name := "health", type := "float" },
       { name := "timer", type := "float", modifiers := { transient := true } }] }]

/-- The streams of a unit, whose teams have handlers of their own. -/
def unitStream : EntityStream where
  entity := "Mech"
  codecs := { writers := .ofList [("Team", "writeTeam")], readers := .ofList [("Team", "readTeam")] }
  fields := (FieldSet.merge unitScope unitComponents).1
  synced := false

/-- The health of a unit was a whole number once. -/
def unitHistory : List Revision :=
  [⟨0, [⟨"health", "int"⟩]⟩, ⟨1, [⟨"health", "float"⟩, ⟨"team", "Team"⟩]⟩]

def unitMethod (name : String) : MethodDecl := { name, params := [⟨"io", "Stream"⟩] }

theorem serialized_unitStream : unitStream.serialized =
    [{ name := "health", type := "float" }, { name := "team", type := "Team" }] := by
  have hdecls : unitStream.fields.decls = [{ name := "team", type := "Team" },
      { name := "health", type := "float" },
      { name := "timer", type := "float", modifiers := { transient := true } }] := rfl
  rw [serialized, hdecls]
  simp [FieldDecl.serialized, FieldDecl.isSerialized, FieldDecl.isStatic, List.mergeSort]

theorem codeFor_write_unitStream :
    unitStream.codeFor (unitMethod "write") unitHistory = .ok (some ⟨⟨[⟨0, "io.s(1);"⟩,
      ⟨0, "io.f(this.health);"⟩, ⟨0, "writeTeam(io, this.team);"⟩], 0⟩, []⟩) := by
  show (unitStream.write "io" unitHistory).map _ = _
  rw [write, saved, serialized_unitStream]
  rfl

/-- The code that loads a unit. -/
def unitLoading : CodeBlock :=
  ⟨[⟨0, "short REV = io.s();"⟩,
    ⟨0, "if(REV == 0) \x7b"⟩, ⟨1, "io.i();"⟩,
    ⟨0, "\x7d else if(REV == 1) \x7b"⟩, ⟨1, "health = io.f();"⟩, ⟨1, "team = readTeam(io);"⟩,
    ⟨0, "\x7d else \x7b"⟩, ⟨1, unitStream.refusal ++ ";"⟩,
    ⟨0, "\x7d"⟩], 0⟩

theorem codeFor_read_unitStream :
    unitStream.codeFor (unitMethod "read") unitHistory = .ok (some ⟨unitLoading, []⟩) := rfl

theorem read_matches_write_unit :
    (∃ head values, unitLoading.sections.filter (·.guards 0) = [⟨head, statementsOf "io" values⟩] ∧
        List.Forall₂ unitStream.TakesEntry [⟨"health", "int"⟩] values) ∧
      ∃ head writes values, ["io.s(1);", "io.f(this.health);", "writeTeam(io, this.team);"] =
          ("io.s(" ++ Text.digits 1 ++ ");") :: writes.map (fun w : ValueWrite => w.text "io" ++ ";") ∧
        writes.map (·.field) = ["health", "team"] ∧
        unitLoading.sections.filter (·.guards 1) = [⟨head, statementsOf "io" values⟩] ∧
        List.Forall₂ ReadsBack writes values := by
  obtain ⟨out, inp, hout, hinp, -, -, hbranches, hlast⟩ := read_matches_write rfl (by decide) rfl rfl
    codeFor_write_unitStream codeFor_read_unitStream
  obtain rfl : "io" = out := Option.some.inj hout
  obtain rfl : "io" = inp := Option.some.inj hinp
  have hlayout : unitStream.fields.layout = [⟨"health", "float"⟩, ⟨"team", "Team"⟩] := by
    show unitStream.serialized.map _ = _
    rw [serialized_unitStream]
    rfl
  have hnewest := hlast ⟨1, [⟨"health", "float"⟩, ⟨"team", "Team"⟩]⟩ rfl hlayout.symm
  rw [serialized_unitStream] at hnewest
  exact ⟨hbranches ⟨0, [⟨"health", "int"⟩]⟩ List.mem_cons_self, hnewest⟩

end EntityStream

end EntityWeaver
