import EntityWeaver.Proofs.ComponentName
import EntityWeaver.Proofs.EntityStream.Revisions
import EntityWeaver.Proofs.Text.Decimal

/-! Which branch loading enters for the revision number that saving put on the stream.

    Saving puts the number of the newest revision on the stream as sixteen bits. Loading takes them as a
    signed number and goes down the branches, each of which compares it with a literal:

        number of the revision     0 … 32767       32768 … 65535
        sixteen bits, signed       the number      the number less 65536
        branch that is entered     its own         the last one, which refuses it

    A literal has no sign, so no branch compares with a negative number. Data saved under a number of the
    upper half is refused by the very code that was generated with the code that wrote it. -/

namespace EntityWeaver

namespace Text

/-- The number whose digits a line has between two texts. -/
def numberBetween? (before after line : String) : Option Nat :=
  ((afterStart? before.toList line.toList).bind (beforeEnd? after.toList)).bind natural?

theorem numberBetween?_digits (before after : String) (n : Nat) :
    numberBetween? before after (before ++ digits n ++ after) = some n := by
  have hstart : afterStart? before.toList (before ++ digits n ++ after).toList =
      some ((digits n).toList ++ after.toList) := by simp [afterStart?]
  rw [numberBetween?, hstart, Option.bind_some, beforeEnd?_append, Option.bind_some, digits,
    String.toList_ofList, natural?_toDigits]

/-- A line that starts with another character has no number there. -/
theorem numberBetween?_of_head?_ne {before after line : String} {c d : Char}
    (hbefore : before.toList.head? = some c) (hline : line.toList.head? = some d) (hne : c ≠ d) :
    numberBetween? before after line = none := by
  have hstart : afterStart? before.toList line.toList = none := by
    refine if_neg fun hprefix => hne ?_
    obtain ⟨rest, hrest⟩ := List.isPrefixOf_iff_prefix.1 hprefix
    rw [← hrest, List.head?_append, hbefore] at hline
    exact Option.some.inj hline
  rw [numberBetween?, hstart]
  rfl

end Text

/-! ### Sixteen bits -/

namespace EntityStream

/-- The number that a stream gives back for one that is put on it: sixteen bits, in two's complement. -/
def carried (n : Nat) : Int := (Int16.ofNat n).toInt

theorem carried_eq {n : Nat} (h : n < 65536) :
    carried n = if n < 32768 then (n : Int) else n - 65536 := by
  have hsize : Int16.size = 65536 := rfl
  rw [carried, Int16.toInt_ofNat', hsize, Int.bmod_def]
  split <;> split <;> omega

/-- A number of sixteen bits comes back as it is just if it is one of the lower half. -/
theorem carried_eq_self_iff {n : Nat} (h : n < 65536) : carried n = n ↔ n < 32768 := by
  rw [carried_eq h]
  split <;> omega

/-- The number that a statement puts on a stream in sixteen bits. -/
def shortPut? (stream statement : String) : Option Nat :=
  Text.numberBetween? (stream ++ ".s(") ");" statement

end EntityStream

/-! ### Entering a section -/

namespace Section

/-- The number that the head of a section compares the revision number with. -/
def number? (b : Section) : Option Nat :=
  (Text.numberBetween? "if(REV == " ") \x7b" b.head).or
    (Text.numberBetween? "\x7d else if(REV == " ") \x7b" b.head)

/-- Whether a run with that revision number enters the section when it comes to it. -/
def admits (rev : Int) (b : Section) : Bool :=
  match b.number? with
  | some n => (n : Int) == rev
  | none => b.head == "\x7d else \x7b"

end Section

/-- The section that a run with that revision number enters: the first that admits it. -/
def CodeBlock.entered? (code : CodeBlock) (rev : Int) : Option Section :=
  code.sections.find? (·.admits rev)

namespace EntityStream

variable {s : EntityStream} {stream lead : String} {rev : Int}

/-- A branch compares with the number of its revision. -/
theorem number?_branch (hlead : lead = "" ∨ lead = "\x7d else ") (r : RevisionRead) :
    (branch stream lead r).number? = some r.version.toNat := by
  have hguard := Text.numberBetween?_digits "if(REV == " ") \x7b" r.version.toNat
  have helse := Text.numberBetween?_digits "\x7d else if(REV == " ") \x7b" r.version.toNat
  rcases hlead with rfl | rfl
  · rw [Section.number?, head_branch, String.empty_append, Section.guard, hguard]
    rfl
  · have hopen : "\x7d else " ++ Section.guard r.version =
        "\x7d else if(REV == " ++ Text.digits r.version.toNat ++ ") \x7b" := by
      have hif : "\x7d else if(REV == " = "\x7d else " ++ "if(REV == " := rfl
      rw [Section.guard, hif, String.append_assoc, String.append_assoc, String.append_assoc]
    have hnone : Text.numberBetween? "if(REV == " ") \x7b" (branch stream "\x7d else " r).head =
        none := by
      refine Text.numberBetween?_of_head?_ne (c := 'i') (d := '\x7d') rfl ?_ (by decide)
      rw [head_branch]
      exact head?_toList_append rfl
    rw [Section.number?, hnone, Option.none_or, head_branch, hopen, helse]

theorem admits_branch (hlead : lead = "" ∨ lead = "\x7d else ") (r : RevisionRead) :
    (branch stream lead r).admits rev = ((r.version.toNat : Int) == rev) := by
  rw [Section.admits, number?_branch hlead]

theorem mem_branches {reads : List RevisionRead} {b : Section} (hb : b ∈ branches stream reads) :
    ∃ r ∈ reads, ∃ lead, (lead = "" ∨ lead = "\x7d else ") ∧ b = branch stream lead r := by
  cases reads with
  | nil => cases hb
  | cons first rest =>
    rcases List.mem_cons.1 hb with rfl | hb
    · exact ⟨first, List.mem_cons_self, "", .inl rfl, rfl⟩
    · obtain ⟨r, hr, rfl⟩ := List.mem_map.1 hb
      exact ⟨r, List.mem_cons_of_mem _ hr, "\x7d else ", .inr rfl, rfl⟩

theorem exists_mem_branches (stream : String) {reads : List RevisionRead} {r : RevisionRead}
    (hr : r ∈ reads) :
    ∃ lead, (lead = "" ∨ lead = "\x7d else ") ∧ branch stream lead r ∈ branches stream reads := by
  cases reads with
  | nil => cases hr
  | cons first rest =>
    rcases List.mem_cons.1 hr with rfl | hr
    · exact ⟨"", .inl rfl, List.mem_cons_self⟩
    · exact ⟨"\x7d else ", .inr rfl, List.mem_cons_of_mem _ (List.mem_map_of_mem hr)⟩

/-- The section behind the branches, which refuses every number that comes to it. -/
def refusingSection (s : EntityStream) : Section := ⟨"\x7d else \x7b", [s.refusal ++ ";"]⟩

theorem admits_refusingSection (s : EntityStream) (rev : Int) : s.refusingSection.admits rev = true := by
  have hnone : s.refusingSection.number? = none := by
    show (Text.numberBetween? _ _ "\x7d else \x7b").or (Text.numberBetween? _ _ "\x7d else \x7b") = none
    decide
  rw [Section.admits, hnone]
  rfl

/-- A run passes the line that takes the revision number, and enters the first branch that compares with
    the number, or the last section if there is none. -/
theorem entered?_of_read {history : List Revision} {code : CodeBlock} (hne : history ≠ [])
    (h : s.read stream history = .ok code) : ∃ reads, s.loaded history = .ok reads ∧
      code.entered? rev = ((branches stream reads).find? (·.admits rev)).or (some s.refusingSection) := by
  obtain ⟨reads, hreads, hlines⟩ := lines_read h
  refine ⟨reads, hreads, ?_⟩
  have hsome : reads ≠ [] := by
    rintro rfl
    exact hne (List.map_eq_nil_iff.1 (map_version_loaded hreads).symm)
  have hfirst : (Section.mk ("short REV = " ++ stream ++ ".s();") []).admits rev = false := by
    have hhead : ("short REV = " ++ stream ++ ".s();").toList.head? = some 's' :=
      head?_toList_append (head?_toList_append rfl)
    have hnone : (Section.mk ("short REV = " ++ stream ++ ".s();") []).number? = none := by
      rw [Section.number?, Text.numberBetween?_of_head?_ne (c := 'i') rfl hhead (by decide),
        Text.numberBetween?_of_head?_ne (c := '\x7d') rfl hhead (by decide)]
      rfl
    rw [Section.admits, hnone]
    refine beq_eq_false_iff_ne.2 fun heq => ?_
    change "short REV = " ++ stream ++ ".s();" = "\x7d else \x7b" at heq
    simp [heq] at hhead
  have hlast := s.admits_refusingSection rev
  rw [CodeBlock.entered?, CodeBlock.sections, hlines, Section.split_lines, chain, refusing,
    if_neg hsome, List.find?_cons_of_neg (by simp [hfirst]), List.find?_append]
  exact congrArg _ (List.find?_cons_of_pos hlast)

/-- The section is the branch for a revision number, and takes the values of a layout that the history
    has under that number. -/
structure IsBranchOf (s : EntityStream) (history : List Revision) (stream : String) (v : UInt16)
    (b : Section) : Prop where
  guards : b.guards v = true
  values : ∃ r ∈ history, r.version = v ∧ ∃ values, r.fields.mapM s.entryRead = .ok values ∧
    b.body = statementsOf stream values

theorem isBranchOf_branch {history : List Revision} {reads : List RevisionRead}
    (hreads : s.loaded history = .ok reads) (hlead : lead = "" ∨ lead = "\x7d else ")
    {r : RevisionRead} (hr : r ∈ reads) :
    s.IsBranchOf history stream r.version (branch stream lead r) := by
  obtain ⟨revision, hrevision, hread⟩ := exists_of_forall₂ (mapM_eq_ok.1 hreads).flip hr
  obtain ⟨hvalues, hversion⟩ := revisionRead_eq_ok.1 hread
  exact ⟨by simp [guards_branch hlead], revision, hrevision, hversion.symm, r.values, hvalues, rfl⟩

/-- A number of the lower half leads to the branch that compares with it. -/
theorem entered?_of_lt {history : List Revision} {code : CodeBlock}
    (h : s.read stream history = .ok code) {r : Revision} (hr : r ∈ history)
    (hlow : r.version.toNat < 32768) :
    ∃ b, code.entered? (carried r.version.toNat) = some b ∧
      s.IsBranchOf history stream r.version b := by
  have hsame : carried r.version.toNat = r.version.toNat :=
    (carried_eq_self_iff r.version.toNat_lt).2 hlow
  obtain ⟨reads, hreads, hentered⟩ := entered?_of_read (List.ne_nil_of_mem hr) h
  obtain ⟨read, hread, hr⟩ := exists_read_of_mem hreads hr
  obtain ⟨lead, hlead, hbranch⟩ := exists_mem_branches stream hread
  have hadmits : (branch stream lead read).admits (carried r.version.toNat) = true := by
    rw [admits_branch hlead, hsame, (revisionRead_eq_ok.1 hr).2, beq_self_eq_true]
  obtain ⟨b, hb⟩ := Option.isSome_iff_exists.1 (List.find?_isSome.2 ⟨_, hbranch, hadmits⟩)
  refine ⟨b, by rw [hentered, hb]; rfl, ?_⟩
  obtain ⟨read', hread', lead', hlead', rfl⟩ := mem_branches (List.mem_of_find?_eq_some hb)
  have hnumber := List.find?_some hb
  rw [admits_branch hlead', hsame, beq_iff_eq, Int.natCast_inj, UInt16.toNat_inj] at hnumber
  exact hnumber ▸ isBranchOf_branch hreads hlead' hread'

/-- No branch compares with a negative number. -/
theorem entered?_of_neg {history : List Revision} {code : CodeBlock} (hne : history ≠ [])
    (h : s.read stream history = .ok code) (hneg : rev < 0) :
    code.entered? rev = some s.refusingSection := by
  obtain ⟨reads, -, hentered⟩ := entered?_of_read hne h
  have hnone : (branches stream reads).find? (·.admits rev) = none := by
    refine List.find?_eq_none.2 fun b hb hadmits => ?_
    obtain ⟨r, -, lead, hlead, rfl⟩ := mem_branches hb
    rw [admits_branch hlead, beq_iff_eq] at hadmits
    omega
  rw [hentered, hnone, Option.none_or]

theorem not_guards_refusingSection (s : EntityStream) (v : UInt16) :
    s.refusingSection.guards v = false := by
  have hmem : s.refusingSection ∈ s.refusing [⟨0, []⟩] := List.mem_cons_self
  exact not_guards_refusing v hmem

/-! ### Both sides of the stream -/

/-- Saved data starts with the number of the newest revision, of which the stream carries sixteen bits,
    and the code that loads it compares what it gets with the numbers of the revisions. A revision on
    record is loaded by a branch of its own just if its number is one of the lower half; the data of any
    other is refused, although the revision has a branch. -/
theorem entered_branch_iff {history : List Revision} {writing reading : MethodDecl}
    {written read : InjectedCode} (hwriting : writing.name = "write") (hreading : reading.name = "read")
    (hwritten : s.codeFor writing history = .ok (some written))
    (hread : s.codeFor reading history = .ok (some read)) :
    ∃ out inp, writing.params.head?.map (·.name) = some out ∧
      reading.params.head?.map (·.name) = some inp ∧
      (∀ r, history.getLast? = some r →
        written.code.texts.head?.bind (shortPut? out) = some r.version.toNat) ∧
      read.code.texts.head? = some ("short REV = " ++ inp ++ ".s();") ∧
      ∀ r ∈ history,
        (carried r.version.toNat = r.version.toNat ↔ r.version.toNat < 32768) ∧
        ((∃ b, read.code.entered? (carried r.version.toNat) = some b ∧
          s.IsBranchOf history inp r.version b) ↔ r.version.toNat < 32768) ∧
        (32768 ≤ r.version.toNat →
          read.code.entered? (carried r.version.toNat) = some s.refusingSection) := by
  obtain ⟨out, hout, hwrite⟩ := codeFor_write hwriting hwritten
  obtain ⟨inp, hinp, hload⟩ := codeFor_read hreading hread
  refine ⟨out, inp, hout, hinp, fun r hlast => ?_, ?_, fun r hr => ?_⟩
  · obtain ⟨writes, -, htexts⟩ := texts_write hlast hwrite
    rw [htexts, List.head?_cons, Option.bind_some, shortPut?, Text.numberBetween?_digits]
  · obtain ⟨reads, -, hlines⟩ := lines_read hload
    rw [CodeBlock.texts, hlines]
    rfl
  · have hrefused (hhigh : 32768 ≤ r.version.toNat) :
        read.code.entered? (carried r.version.toNat) = some s.refusingSection := by
      refine entered?_of_neg (List.ne_nil_of_mem hr) hload ?_
      rw [carried_eq r.version.toNat_lt, if_neg (by omega)]
      have hlt := r.version.toNat_lt
      omega
    refine ⟨carried_eq_self_iff r.version.toNat_lt, ⟨?_, entered?_of_lt hload hr⟩, hrefused⟩
    rintro ⟨b, hentered, hb⟩
    by_contra hhigh
    obtain rfl := Option.some.inj ((hrefused (by omega)).symm.trans hentered)
    have hguards := hb.guards
    rw [not_guards_refusingSection] at hguards
    cases hguards

/-- A unit whose newest revision has a number of the upper half. -/
def agedHistory : List Revision :=
  [⟨7, [⟨"health", "int"⟩]⟩, ⟨40000, [⟨"health", "float"⟩, ⟨"team", "Team"⟩]⟩]

/-- The code that saves an aged unit. -/
def agedSaving : CodeBlock :=
  ⟨[⟨0, "io.s(40000);"⟩, ⟨0, "io.f(this.health);"⟩, ⟨0, "writeTeam(io, this.team);"⟩], 0⟩

/-- The code that loads an aged unit. -/
def agedLoading : CodeBlock :=
  ⟨[⟨0, "short REV = io.s();"⟩,
    ⟨0, "if(REV == 7) \x7b"⟩, ⟨1, "io.i();"⟩,
    ⟨0, "\x7d else if(REV == 40000) \x7b"⟩, ⟨1, "health = io.f();"⟩, ⟨1, "team = readTeam(io);"⟩,
    ⟨0, "\x7d else \x7b"⟩, ⟨1, unitStream.refusal ++ ";"⟩,
    ⟨0, "\x7d"⟩], 0⟩

theorem codeFor_write_aged :
    unitStream.codeFor (unitMethod "write") agedHistory = .ok (some ⟨agedSaving, []⟩) := by
  show (unitStream.write "io" agedHistory).map _ = _
  rw [write, saved, serialized_unitStream]
  rfl

theorem codeFor_read_aged :
    unitStream.codeFor (unitMethod "read") agedHistory = .ok (some ⟨agedLoading, []⟩) := rfl

/-- An aged unit is saved under the number 40000, and what was saved under the number 7 still finds its
    branch. -/
theorem entered_branch_iff_aged :
    agedSaving.texts.head?.bind (shortPut? "io") = some 40000 ∧
      (∃ b, agedLoading.entered? (carried 7) = some b ∧ unitStream.IsBranchOf agedHistory "io" 7 b) ∧
      agedLoading.entered? (carried 40000) = some unitStream.refusingSection := by
  obtain ⟨out, inp, hout, hinp, hnewest, -, hdispatch⟩ :=
    entered_branch_iff rfl rfl codeFor_write_aged codeFor_read_aged
  obtain rfl : "io" = out := Option.some.inj hout
  obtain rfl : "io" = inp := Option.some.inj hinp
  have hold := hdispatch ⟨7, [⟨"health", "int"⟩]⟩ List.mem_cons_self
  have hnew := hdispatch ⟨40000, [⟨"health", "float"⟩, ⟨"team", "Team"⟩]⟩ (by simp [agedHistory])
  exact ⟨hnewest _ rfl, hold.2.1.2 (by decide), hnew.2.2 (by decide)⟩

/-- What an aged unit has just written is refused by the code that was generated with it, which has a
    branch for it. -/
theorem aged_unit_refused :
    unitStream.validate = .ok () ∧
      unitStream.codeFor (unitMethod "write") agedHistory = .ok (some ⟨agedSaving, []⟩) ∧
      unitStream.codeFor (unitMethod "read") agedHistory = .ok (some ⟨agedLoading, []⟩) ∧
      agedHistory.getLast?.map (·.version) = some 40000 ∧
      agedSaving.texts.head? = some "io.s(40000);" ∧ shortPut? "io" "io.s(40000);" = some 40000 ∧
      carried 40000 = -25536 ∧ (∃ b ∈ agedLoading.sections, b.guards 40000 = true) ∧
      agedLoading.entered? (-25536) = some unitStream.refusingSection := by
  refine ⟨?_, codeFor_write_aged, codeFor_read_aged, rfl, rfl, by decide, by decide, ?_, by decide⟩
  · rw [validate, uncoded?, serialized_unitStream]
    rfl
  · exact ⟨⟨"\x7d else if(REV == 40000) \x7b", ["health = io.f();", "team = readTeam(io);"]⟩,
      by decide, by decide⟩

end EntityStream

end EntityWeaver
