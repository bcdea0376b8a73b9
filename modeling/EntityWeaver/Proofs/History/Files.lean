import EntityWeaver.History.Files
import EntityWeaver.Proofs.Files.Tree
import EntityWeaver.Proofs.History.Runs
import EntityWeaver.Proofs.Json.RoundTrip
import EntityWeaver.Proofs.Sorting

/-! Histories in files answer as histories in memory do.

    The directory of an entity holds its history as files: one for each version, named for it, with the
    layout as its text. Both can be read back, so the files are the history in whatever order they are
    listed, and sorting makes them the list that memory gives:

        memory h                        directories c
        revisions of e, by version      e/<version>.json, in any order
        h.store e r                     c with e made and the file of r written

    One call keeps the two together and is answered alike, and therefore so is a run of calls. -/

namespace EntityWeaver

theorem LayoutField.roundTrips : Json.RoundTrips toJson ofJson? where
  readable f := .object (by simp [Json.RoundTrips.text.readable])
  read _ := rfl

namespace Revision

open EntityWeaver.Path (IsName)

/-- A layout is read back from its text. -/
theorem layoutOfText?_renderLayout (fields : List LayoutField) :
    layoutOfText? (renderLayout fields) = some fields :=
  LayoutField.roundTrips.list.bind_ofText?_pretty fields

theorem toList_fileName (version : UInt16) :
    (fileName version).toList = Nat.toDigits 10 version.toNat ++ ".json".toList := by
  rw [fileName, String.toList_append, Text.digits, String.toList_ofList]

theorem versionOf?_digits (version : UInt16) :
    versionOf? (Text.digits version.toNat) = some version := by
  have hplus : '+' ∉ Nat.toDigits 10 version.toNat := fun h =>
    absurd (Nat.isDigit_of_mem_toDigits (by decide) (by decide) h) (by decide)
  have hnatural := Text.natural?_toDigits version.toNat
  rw [versionOf?, Text.digits, String.toList_ofList]
  cases hds : Nat.toDigits 10 version.toNat with
  | nil => exact absurd hds Nat.toDigits_ne_nil
  | cons d ds =>
    rw [hds] at hplus hnatural
    have hd : d ≠ '+' := fun h => hplus (h ▸ List.mem_cons_self)
    split
    · next rest hrest => exact absurd (List.cons.inj hrest).1 hd
    · rw [hnatural, Option.filter_some, if_pos (decide_eq_true version.toNat_lt), Option.map_some,
        UInt16.ofNat_toNat]

/-- A version is read back from the name of its file. -/
theorem versionOfFile?_fileName (version : UInt16) :
    versionOfFile? (fileName version) = some version := by
  have hstem : Text.digits version.toNat ≠ "" := fun h =>
    Nat.toDigits_ne_nil (String.ofList_eq_empty_iff.1 h)
  have hsplit : Path.splitExtension (fileName version) = (Text.digits version.toNat, some "json") := by
    have hname : fileName version = Text.digits version.toNat ++ "." ++ "json" := by
      rw [fileName, String.append_assoc]
      rfl
    rw [hname]
    exact Path.splitExtension_append hstem (by decide)
  rw [versionOfFile?, hsplit]
  exact versionOf?_digits version

theorem fileName_injective : Function.Injective fileName := fun v w h => by
  have hversion := congrArg versionOfFile? h
  rw [versionOfFile?_fileName, versionOfFile?_fileName] at hversion
  exact Option.some.inj hversion

/-- The name of a file is an ordinary one, and has ten bytes at most. -/
theorem isName_fileName {longest : Nat} (h : 10 ≤ longest) (version : UInt16) :
    IsName longest (fileName version) := by
  have hlist := toList_fileName version
  have hchars : ∀ c ∈ (fileName version).toList, c.isDigit = true ∨ c ∈ ".json".toList := by
    intro c hc
    rw [hlist, List.mem_append] at hc
    exact hc.imp_left (Nat.isDigit_of_mem_toDigits (by decide) (by decide))
  have hlength : 5 ≤ (fileName version).toList.length := by
    rw [hlist, List.length_append]
    exact Nat.le_add_left 5 _
  have hshort : (Nat.toDigits 10 version.toNat).length ≤ 5 :=
    (Nat.length_toDigits_le_iff (by decide) (by decide)).2 (Nat.lt_trans version.toNat_lt (by decide))
  refine ⟨fun heq => ?_, fun heq => ?_, fun heq => ?_, fun hc => ?_, fun hc => ?_, ?_⟩
  · exact absurd (heq ▸ hlength) (by decide)
  · exact absurd (heq ▸ hlength) (by decide)
  · exact absurd (heq ▸ hlength) (by decide)
  · exact absurd (hchars _ hc) (by decide)
  · exact absurd (hchars _ hc) (by decide)
  · have hend : ".json".utf8ByteSize = 5 := rfl
    rw [fileName, String.utf8ByteSize_append, Text.utf8ByteSize_digits, hend]
    omega

end Revision

/-- The order of versions. -/
theorem Ordered.versions : Ordered fun q r : Revision => q.version ≤ r.version where
  trans q r s hqr hrs :=
    decide_eq_true (UInt16.le_trans (of_decide_eq_true hqr) (of_decide_eq_true hrs))
  total q r := by simpa using UInt16.le_total q.version r.version

open Revision (fileName renderLayout)

/-- Directories hold histories: each entity's history is what the files of its directory say. -/
def Directories.Hold (c : Directories) (h : MemoryHistories) : Prop :=
  ∀ entity file text, c.text? entity file = some text ↔
    ∃ r ∈ h.load entity, file = fileName r.version ∧ text = renderLayout r.fields

namespace Directories.Hold

variable {c : Directories} {h : MemoryHistories} {entity : String}

theorem empty : Directories.empty.Hold .empty := by
  intro entity file text
  have hload : MemoryHistories.load .empty entity = [] := rfl
  simp [Directories.empty, text?, hload]

/-- A revision of a history has its file. -/
theorem text?_fileName (hc : c.Hold h) {r : Revision} (hr : r ∈ h.load entity) :
    c.text? entity (fileName r.version) = some (renderLayout r.fields) :=
  (hc _ _ _).2 ⟨r, hr, rfl, rfl⟩

theorem load_eq_nil (hc : c.Hold h) (hnone : c entity = none) : h.load entity = [] := by
  refine List.eq_nil_iff_forall_not_mem.2 fun r hr => ?_
  have htext := hc.text?_fileName hr
  rw [text?, hnone] at htext
  cases htext

/-- A file that is written for a revision stands in for the one with its version. -/
theorem store (hc : c.Hold h) (entity : String) (r : Revision) :
    ((c.make entity).write entity (fileName r.version) (renderLayout r.fields)).Hold
      (h.store entity r) := by
  intro name file text
  rw [text?_write, text?_make]
  by_cases hname : name = entity
  · subst hname
    by_cases hfile : file = fileName r.version
    · rw [if_pos ⟨rfl, hfile⟩, Option.some.injEq]
      constructor
      · rintro rfl
        exact ⟨r, MemoryHistories.mem_load_store_iff.2 (.inl rfl), hfile, rfl⟩
      · rintro ⟨q, hq, hqfile, rfl⟩
        rcases MemoryHistories.mem_load_store_iff.1 hq with rfl | ⟨hversion, -⟩
        · rfl
        · exact absurd (Revision.fileName_injective (hqfile.symm.trans hfile)) hversion
    · rw [if_neg fun heq => hfile heq.2, hc]
      refine exists_congr fun q => and_congr_left fun hq => ?_
      have hversion : q.version ≠ r.version := fun heq => hfile (heq ▸ hq.1)
      have hne : q ≠ r := fun heq => hversion (congrArg Revision.version heq)
      simp only [MemoryHistories.mem_load_store_iff, hne, hversion, false_or, ne_eq,
        not_false_eq_true, true_and]
  · rw [if_neg fun heq => hname heq.1, hc, MemoryHistories.load_store_of_ne hname]

/-- The files of a directory that holds a history are those of its revisions. -/
theorem exists_perm_load (hc : c.Hold h) {files : List String} (hnodup : files.Nodup)
    (hfiles : ∀ file, file ∈ files ↔ (c.text? entity file).isSome) :
    ∃ revisions : List Revision, revisions.map (fileName ·.version) = files ∧
      revisions.Perm (h.load entity) := by
  have hmem : ∀ file, file ∈ files ↔ file ∈ (h.load entity).map (fileName ·.version) := by
    intro file
    rw [hfiles, List.mem_map, Option.isSome_iff_exists]
    constructor
    · rintro ⟨text, htext⟩
      obtain ⟨r, hr, rfl, -⟩ := (hc _ _ _).1 htext
      exact ⟨r, hr, rfl⟩
    · rintro ⟨r, hr, rfl⟩
      exact ⟨_, hc.text?_fileName hr⟩
  have hloaded : ((h.load entity).map (fileName ·.version)).Nodup :=
    List.pairwise_map.2 ((h.pairwise_load entity).imp fun hlt heq =>
      UInt16.ne_of_lt hlt (Revision.fileName_injective heq))
  have hperm := (List.perm_ext_iff_of_nodup hnodup hloaded).2 hmem
  -- names in another order are those of the revisions in another order
  have hcomp := congrFun₂ (List.eq_map_comp_perm fun r : Revision => fileName r.version)
  obtain ⟨revisions, hnames, hrevisions⟩ := (hcomp files (h.load entity)).mpr hperm
  exact ⟨revisions, hnames.symm, hrevisions⟩

end Directories.Hold

/-- Revisions with a version each are sorted whatever order they come in. -/
theorem MemoryHistories.sort_eq_load {h : MemoryHistories} {entity : String}
    {revisions : List Revision} (hperm : revisions.Perm (h.load entity)) :
    Revision.sort revisions = h.load entity := by
  refine Eq.trans (Ordered.versions.mergeSort_eq_of_perm hperm fun q hq r hr hqr hrq => ?_)
    (h.sort_load entity)
  have hversion := UInt16.le_antisymm (of_decide_eq_true hqr) (of_decide_eq_true hrq)
  exact eq_of_version (hperm.mem_iff.1 hq) (hperm.mem_iff.1 hr) hversion

namespace HistoryStore

open EntityWeaver.Path (IsName)

variable {σ : Type} {fs : FileSystem (StateM σ)} {root : String} {longest : Nat}
  {shows : σ → Directories → Prop} {c : Directories} {h : MemoryHistories} {entity : String}

section Simulation

variable (hfs : fs.Serves root longest shows) (hlongest : 10 ≤ longest)

include hfs hlongest

/-- The file of a revision is read as the revision. -/
theorem yields_readRevision (hentity : IsName longest entity) {r : Revision}
    (hfile : c.text? entity (fileName r.version) = some (renderLayout r.fields)) :
    Yields shows (readRevision fs (Path.join root entity) (fileName r.version)) c c
      (· = .ok (some r)) := by
  unfold readRevision
  rw [Revision.versionOfFile?_fileName]
  refine (hfs.readText hentity (Revision.isName_fileName hlongest _) hfile).bind ?_
  rintro _ rfl
  dsimp only
  rw [Revision.layoutOfText?_renderLayout]
  exact .pure rfl

/-- Files of revisions are read as these revisions. -/
theorem yields_readRevisions (hentity : IsName longest entity) {revisions : List Revision}
    (hfiles : ∀ r ∈ revisions,
      c.text? entity (fileName r.version) = some (renderLayout r.fields)) :
    Yields shows (readRevisions fs (Path.join root entity) (revisions.map (fileName ·.version))) c c
      (· = .ok revisions) := by
  induction revisions with
  | nil => exact .pure rfl
  | cons r revisions ih =>
    obtain ⟨hr, hrest⟩ := List.forall_mem_cons.1 hfiles
    refine (yields_readRevision hfs hlongest hentity hr).bind ?_
    rintro _ rfl
    refine (ih hrest).bind ?_
    rintro _ rfl
    exact .pure rfl

theorem yields_load (hc : c.Hold h) (hentity : IsName longest entity) :
    Yields shows ((inFiles fs root).load entity) c c (· = .ok (h.load entity)) := by
  refine (hfs.isDirectory hentity).bind ?_
  rintro _ rfl
  cases hthere : c entity with
  | none =>
    rw [hc.load_eq_nil hthere]
    exact .pure rfl
  | some files =>
    refine (hfs.list hentity (by rw [hthere]; rfl)).bind ?_
    rintro _ ⟨files, rfl, hnodup, hfiles⟩
    obtain ⟨revisions, rfl, hperm⟩ := hc.exists_perm_load hnodup hfiles
    refine (yields_readRevisions hfs hlongest hentity fun r hr =>
      hc.text?_fileName (hperm.mem_iff.1 hr)).bind ?_
    rintro _ rfl
    refine .pure ?_
    rw [← MemoryHistories.sort_eq_load hperm]
    rfl

theorem yields_store (hentity : IsName longest entity) (r : Revision) :
    Yields shows ((inFiles fs root).store entity r) c
      ((c.make entity).write entity (fileName r.version) (renderLayout r.fields)) (· = .ok ()) := by
  refine (hfs.createDirectories hentity).bind ?_
  rintro _ rfl
  have hname := Revision.isName_fileName hlongest r.version
  refine (hfs.writeText (renderLayout r.fields) hentity hname (c.isSome_make entity)).bind ?_
  rintro _ rfl
  exact .pure rfl

/-- An update in files is answered as in memory and leaves what it leaves there. -/
theorem yields_update (hc : c.Hold h) (hentity : IsName longest entity) (layout : List LayoutField) :
    ∃ c' : Directories, c'.Hold (h.update entity layout).2 ∧
      Yields shows ((inFiles fs root).update entity layout) c c'
        (· = .ok (h.update entity layout).1) := by
  unfold HistoryStore.update MemoryHistories.update
  cases hlacking : Revision.lacking? (h.load entity) layout with
  | none =>
    refine ⟨c, hc, (yields_load hfs hlongest hc hentity).bind ?_⟩
    rintro _ rfl
    dsimp only
    rw [h.sort_load, hlacking]
    exact .pure rfl
  | some r =>
    refine ⟨_, hc.store entity r, (yields_load hfs hlongest hc hentity).bind ?_⟩
    rintro _ rfl
    dsimp only
    rw [h.sort_load, hlacking]
    refine (yields_store hfs hlongest hentity r).bind ?_
    rintro _ rfl
    exact .pure rfl

/-- One call keeps files and memory together. -/
theorem yields_answer (hc : c.Hold h) {call : HistoryCall} (hentity : IsName longest call.entity) :
    ∃ c' : Directories, c'.Hold (h.after call) ∧
      Yields shows ((inFiles fs root).answer call) c c' (· = .ok (h.answer call)) :=
  match call with
  | .load _ => ⟨c, hc, yields_load hfs hlongest hc hentity⟩
  | .update _ layout => yields_update hfs hlongest hc hentity layout

/-- A run of calls keeps files and memory together. -/
theorem yields_answers (hc : c.Hold h) {calls : List HistoryCall}
    (hentities : ∀ call ∈ calls, IsName longest call.entity) :
    ∃ c' : Directories, c'.Hold (calls.foldl .after h) ∧
      Yields shows ((inFiles fs root).answers calls) c c' (· = (h.answers calls).map .ok) := by
  induction calls generalizing c h with
  | nil => exact ⟨c, hc, .pure rfl⟩
  | cons call calls ih =>
    obtain ⟨hentity, hentities⟩ := List.forall_mem_cons.1 hentities
    obtain ⟨c', hc', hcall⟩ := yields_answer hfs hlongest hc hentity
    obtain ⟨c'', hc'', hcalls⟩ := ih hc' hentities
    refine ⟨c'', hc'', ?_⟩
    rw [answers, List.mapM_cons]
    refine hcall.bind ?_
    rintro _ rfl
    refine hcalls.bind ?_
    rintro _ rfl
    exact .pure rfl

end Simulation

/-- Histories in files below an empty root, for entities with names that the file system takes, and
    histories in memory answer every call alike, and each with a history. -/
theorem inFiles_answers_eq (hfs : fs.Serves root longest shows) (hlongest : 10 ≤ longest) {s : σ}
    (hempty : shows s .empty) (calls : List HistoryCall)
    (hentities : ∀ call ∈ calls, IsName longest call.entity) :
    (((inFiles fs root).answers calls).run s).1 =
        ((memoryStore.answers calls : StateM MemoryHistories _).run .empty).1 ∧
      ∀ answer ∈ (((inFiles fs root).answers calls).run s).1, ∃ history, answer = .ok history := by
  obtain ⟨c', -, hcalls⟩ := yields_answers hfs hlongest .empty hentities
  obtain ⟨hanswers, -⟩ := hcalls s hempty
  rw [hanswers, MemoryHistories.run_answers]
  refine ⟨rfl, fun answer hanswer => ?_⟩
  obtain ⟨history, -, rfl⟩ := List.mem_map.1 hanswer
  exact ⟨history, rfl⟩

/-- A tree with an empty directory for the histories. -/
def emptyRoot : FileTree := .ofList [("revisions", .directory)]

theorem shows_emptyRoot : emptyRoot.Shows "revisions" ["revisions"] .empty := by
  refine FileTree.shows_empty (by decide) (by decide) fun name below => ?_
  have hentries : emptyRoot.entries.entries = [(["revisions"], .directory)] := by decide
  unfold FileTree.entry? OrderedMap.get?
  rw [hentries]
  simp

/-- Below it, the entity that returns to its first layout has it twice. -/
theorem inFiles_answers_turns :
    emptyRoot.Shows "revisions" ["revisions"] .empty ∧
      (∀ call ∈ MemoryHistories.turns, IsName 255 call.entity) ∧
      (((inFiles FileTree.system "revisions").answers MemoryHistories.turns : StateM FileTree _).run
        emptyRoot).1.getLast? =
        some (.ok [⟨0, [⟨"x", "float"⟩]⟩, ⟨1, []⟩, ⟨2, [⟨"x", "float"⟩]⟩]) := by
  have hroot : Path.IsDirectoryPath 3583 "revisions" := by constructor <;> decide
  have hnames : ∀ call ∈ MemoryHistories.turns, IsName 255 call.entity := by
    have hdummy : IsName 255 "Dummy" := by constructor <;> decide
    have hunit : IsName 255 "Unit" := by constructor <;> decide
    simp [MemoryHistories.turns, HistoryCall.entity, hdummy, hunit]
  refine ⟨shows_emptyRoot, hnames, ?_⟩
  obtain ⟨hsame, -⟩ := inFiles_answers_eq (FileTree.system_serves hroot ["revisions"]) (by decide)
    shows_emptyRoot MemoryHistories.turns hnames
  rw [hsame, MemoryHistories.run_answers]
  decide

end HistoryStore

end EntityWeaver
