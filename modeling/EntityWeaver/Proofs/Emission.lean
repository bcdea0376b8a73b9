import EntityWeaver.Emission.Files
import EntityWeaver.Proofs.Files.Keeping
import EntityWeaver.Proofs.OrderedMap

/-! Emissions one after the other, and what they are answered.

    A sink refuses a unit as a duplicate if its name is taken. What takes a name is where the two sinks
    differ, and it shows only behind an emission that fails:

        offered     A        A          A        A
        memory      ok       duplicate               accepted units take their names
        files       ok       duplicate               offered units take their names
        files       failed   duplicate  duplicate    so the failed unit cannot be offered again

    So the refusals in files are those of emitted units exactly as long as nothing that failed is
    offered again, whatever the file system does. The files themselves are left alone by a failed
    emission, as far as the file system keeps them while it makes directories, writes other files and
    fails to move one; a tree of files does. -/

namespace EntityWeaver

/-- Units that were offered, each with what was answered. -/
abbrev EmissionLog := List (SourceUnit × Except EmitError Unit)

/-- Offer units to a sink, one after the other. -/
def UnitSink.offer {m : Type → Type} [Monad m] (sink : UnitSink m) (us : List SourceUnit) :
    m EmissionLog :=
  us.mapM fun u => do return (u, ← sink.emit u)

/-- A unit is refused as a duplicate. -/
def Refuses (answer : Except EmitError Unit) : Prop := ∃ name, answer = .error (.duplicate name)

namespace EmissionLog

/-- An offered unit takes its name. -/
def Offers (e : SourceUnit × Except EmitError Unit) (name : String) : Prop :=
  e.1.qualifiedName = name

/-- An accepted unit takes its name. -/
def Accepts (e : SourceUnit × Except EmitError Unit) (name : String) : Prop :=
  e.1.qualifiedName = name ∧ e.2 = .ok ()

/-- Duplicates are refused, and nothing else as such: those whose names were taken before. -/
def RefusesJust (takes : SourceUnit × Except EmitError Unit → String → Prop) (log : EmissionLog) :
    Prop :=
  ∀ past u answer rest, log = past ++ (u, answer) :: rest →
    (Refuses answer ↔ ∃ e ∈ past, takes e u.qualifiedName)

/-- No unit is offered again behind an emission of it that failed. -/
def RetriesNone (log : EmissionLog) : Prop :=
  ∀ past u path reason rest, log = past ++ (u, .error (.io path reason)) :: rest →
    ∀ e ∈ rest, ¬Offers e u.qualifiedName

/-- The units that were accepted, in order. -/
def accepted (log : EmissionLog) : List SourceUnit := (log.filter (·.2.isOk)).map (·.1)

/-! ### Runs of a step -/

variable {γ : Type}

/-- The log of units offered to a step, and the state behind it. -/
def ofStep (step : SourceUnit → γ → Except EmitError Unit × γ) : γ → List SourceUnit → EmissionLog × γ
  | s, [] => ([], s)
  | s, u :: us =>
    let next := ofStep step (step u s).2 us
    ((u, (step u s).1) :: next.1, next.2)

/-- A step refuses the names that are taken in a state, and what it is offered takes them. -/
structure Takes (step : SourceUnit → γ → Except EmitError Unit × γ) (taken : γ → String → Prop)
    (takes : SourceUnit × Except EmitError Unit → String → Prop) : Prop where
  refuses (u : SourceUnit) (s : γ) : Refuses (step u s).1 ↔ taken s u.qualifiedName
  takes (u : SourceUnit) (s : γ) (name : String) :
    taken (step u s).2 name ↔ taken s name ∨ takes (u, (step u s).1) name

variable {step : SourceUnit → γ → Except EmitError Unit × γ} {taken : γ → String → Prop}
  {takes : SourceUnit × Except EmitError Unit → String → Prop}

/-- Along a run the names are taken that were taken in front of it or by what it was offered. -/
theorem Takes.refuses_iff (h : Takes step taken takes) {s : γ} {us : List SourceUnit}
    {past rest : EmissionLog} {u : SourceUnit} {answer : Except EmitError Unit}
    (hlog : (ofStep step s us).1 = past ++ (u, answer) :: rest) :
    Refuses answer ↔ taken s u.qualifiedName ∨ ∃ e ∈ past, takes e u.qualifiedName := by
  induction us generalizing s past with
  | nil => simp [ofStep] at hlog
  | cons v us ih =>
    rw [ofStep] at hlog
    cases past with
    | nil =>
      obtain ⟨hfirst, -⟩ := List.cons.inj hlog
      obtain ⟨rfl, rfl⟩ := Prod.mk.inj hfirst
      simp [h.refuses]
    | cons e past =>
      obtain ⟨rfl, htail⟩ := List.cons.inj hlog
      rw [ih htail, h.takes, List.exists_mem_cons_iff, or_assoc]

/-- From a state in which no name is taken, the duplicates are those that the run has taken. -/
theorem Takes.refusesJust (h : Takes step taken takes) {s : γ} (hs : ∀ name, ¬taken s name)
    (us : List SourceUnit) : RefusesJust takes (ofStep step s us).1 := by
  intro past u answer rest hlog
  rw [h.refuses_iff hlog, or_iff_right (hs _)]

/-! ### Refusals of what was offered -/

theorem not_refuses_ok : ¬Refuses (.ok ()) := fun ⟨_, h⟩ => nomatch h

theorem not_refuses_io (path reason : String) : ¬Refuses (.error (.io path reason)) :=
  fun ⟨_, h⟩ => nomatch h

section Offers

variable {log past rest : EmissionLog} {u : SourceUnit} {answer : Except EmitError Unit}

/-- Where offered units take their names, what is not refused is the first of its name. -/
theorem RefusesJust.not_offers (h : RefusesJust Offers log) (hlog : log = past ++ (u, answer) :: rest)
    (hanswer : ¬Refuses answer) : ∀ e ∈ past, e.1.qualifiedName ≠ u.qualifiedName :=
  fun e he hname => hanswer ((h past u answer rest hlog).2 ⟨e, he, hname⟩)

/-- Where offered units take their names, a name that failed is never accepted. -/
theorem RefusesJust.not_accepts {path reason : String} (h : RefusesJust Offers log)
    (hlog : log = past ++ (u, .error (.io path reason)) :: rest) :
    ∀ e ∈ log, ¬Accepts e u.qualifiedName := by
  rintro e he ⟨hname, hok⟩
  rw [hlog] at he
  rcases List.mem_append.1 he with hpast | hrest
  · exact h.not_offers hlog (not_refuses_io path reason) e hpast hname
  · rcases List.mem_cons.1 hrest with rfl | hrest
    · cases hok
    · obtain ⟨before, after, rfl⟩ := List.append_of_mem hrest
      have hsplit : log = (past ++ (u, .error (.io path reason)) :: before) ++ (e.1, e.2) :: after := by
        simp [hlog]
      refine h.not_offers hsplit (hok ▸ not_refuses_ok) (u, .error (.io path reason)) ?_ hname.symm
      exact List.mem_append_right past List.mem_cons_self

/-- A name that was offered was accepted or failed when it was offered first. -/
theorem RefusesJust.accepts_or_failed (h : RefusesJust Offers log)
    (hlog : log = past ++ rest) {name : String} (hoffered : ∃ e ∈ past, Offers e name) :
    (∃ e ∈ past, Accepts e name) ∨ ∃ before v path reason after,
      past = before ++ (v, .error (.io path reason)) :: after ∧ v.qualifiedName = name := by
  obtain ⟨e, he, hname⟩ := hoffered
  have hsome : (past.find? fun e => e.1.qualifiedName == name).isSome :=
    List.find?_isSome.2 ⟨e, he, beq_iff_eq.2 hname⟩
  obtain ⟨⟨v, answer⟩, hfound⟩ := Option.isSome_iff_exists.1 hsome
  obtain ⟨hsame, before, after, rfl, hbefore⟩ := List.find?_eq_some_iff_append.1 hfound
  have hv : v.qualifiedName = name := beq_iff_eq.1 hsame
  have hfirst : ¬Refuses answer := by
    rw [h before v answer (after ++ rest) (by simp [hlog])]
    rintro ⟨e, he, hname⟩
    have hne : e.1.qualifiedName ≠ name := by simpa using hbefore e he
    exact hne (hname.trans hv)
  cases answer with
  | ok _ => exact .inl ⟨_, List.mem_append_right before List.mem_cons_self, hv, rfl⟩
  | error e =>
    cases e with
    | duplicate name => exact absurd ⟨name, rfl⟩ hfirst
    | io path reason => exact .inr ⟨before, v, path, reason, after, rfl, hv⟩

/-- Where offered units take their names, the refusals are those of accepted units just if nothing that
    failed is offered again. -/
theorem RefusesJust.accepts_iff (h : RefusesJust Offers log) :
    RefusesJust Accepts log ↔ RetriesNone log := by
  constructor
  · rintro haccepts past u path reason rest hlog e he hsame
    obtain ⟨before, after, rfl⟩ := List.append_of_mem he
    have hsplit : log = (past ++ (u, .error (.io path reason)) :: before) ++ (e.1, e.2) :: after := by
      simp [hlog]
    have hrefused : Refuses e.2 := (h _ _ _ _ hsplit).2
      ⟨_, List.mem_append_right past List.mem_cons_self, hsame.symm⟩
    obtain ⟨a, ha, hname, hok⟩ := (haccepts _ _ _ _ hsplit).1 hrefused
    refine h.not_accepts hlog a ?_ ⟨hname.trans hsame, hok⟩
    rw [hsplit]
    exact List.mem_append_left _ ha
  · intro hnone past u answer rest hlog
    rw [h past u answer rest hlog]
    refine ⟨fun hoffered => ?_, fun ⟨e, he, hname, _⟩ => ⟨e, he, hname⟩⟩
    refine (h.accepts_or_failed hlog hoffered).resolve_right ?_
    rintro ⟨before, v, path, reason, after, rfl, hname⟩
    have hsplit : log = before ++ (v, .error (.io path reason)) :: (after ++ (u, answer) :: rest) := by
      simp [hlog]
    exact hnone before v path reason _ hsplit (u, answer) (by simp) hname.symm

end Offers

end EmissionLog

/-- Offering is a run of the step that emitting is, in any monad that passes a state on. -/
theorem run_offer {m : Type → Type} [Monad m] [LawfulMonad m] {γ : Type}
    (run : ∀ {α : Type}, m α → γ → α × γ) (hpure : ∀ {α : Type} (a : α) s, run (pure a) s = (a, s))
    (hbind : ∀ {α β : Type} (x : m α) (f : α → m β) s,
      run (x >>= f) s = run (f (run x s).1) (run x s).2)
    {sink : UnitSink m} {step : SourceUnit → γ → Except EmitError Unit × γ}
    (hemit : ∀ u s, run (sink.emit u) s = step u s) (us : List SourceUnit) (s : γ) :
    run (sink.offer us) s = EmissionLog.ofStep step s us := by
  induction us generalizing s with
  | nil => exact hpure [] s
  | cons u us ih =>
    have hrest : sink.offer us = us.mapM fun u => do return (u, ← sink.emit u) := rfl
    rw [UnitSink.offer, List.mapM_cons, hbind, hbind, hbind, ← hrest, hpure, hpure, hemit, ih]
    rfl

/-! ### In memory -/

namespace MemoryUnits

open EmissionLog

/-- What a unit is answered in memory, and the units behind it. -/
def step (u : SourceUnit) (units : MemoryUnits) : Except EmitError Unit × MemoryUnits :=
  match units.emit u with
  | .error e => (.error e, units)
  | .ok next => (.ok (), next)

theorem step_eq (u : SourceUnit) (units : MemoryUnits) : step u units =
    if u.qualifiedName ∈ units.keys then (.error (.duplicate u.qualifiedName), units)
    else (.ok (), units.put u.qualifiedName u) := by
  by_cases h : u.qualifiedName ∈ units.keys <;>
    simp [step, MemoryUnits.emit, OrderedMap.contains, h]

theorem run_emit (u : SourceUnit) (units : MemoryUnits) :
    (memorySink.emit u : StateM MemoryUnits _).run units = step u units := by
  unfold memorySink step
  dsimp only
  rw [StateT.run_bind, StateT.run_get, pure_bind]
  dsimp only
  cases units.emit u <;> rfl

/-- In memory accepted units take their names. -/
theorem takes_accepts : Takes step (fun units name => name ∈ units.keys) Accepts where
  refuses u units := by
    rw [step_eq]
    split
    · next h => exact iff_of_true ⟨_, rfl⟩ h
    · next h => exact iff_of_false not_refuses_ok h
  takes u units name := by
    rw [step_eq]
    split
    · simp [Accepts]
    · next h =>
      rw [OrderedMap.keys_put_of_notMem h, List.mem_append, List.mem_singleton]
      simp [Accepts, eq_comm]

/-- What is held are the units that were accepted. -/
theorem values_ofStep (us : List SourceUnit) (units : MemoryUnits) :
    (ofStep step units us).2.values = units.values ++ (ofStep step units us).1.accepted := by
  induction us generalizing units with
  | nil => exact (List.append_nil _).symm
  | cons u us ih =>
    rw [ofStep]
    dsimp only
    rw [ih, step_eq]
    split
    · rfl
    · next h =>
      have hput : (units.put u.qualifiedName u).values = units.values ++ [u] := by
        rw [OrderedMap.values, OrderedMap.entries_put_of_notMem h, List.map_append]
        rfl
      rw [hput, List.append_assoc]
      rfl

end MemoryUnits

/-! ### In files -/

/-- What a file system keeps as it is while directories are made, files are written aside and moves
    fail. -/
structure FileSystem.Spares {σ : Type} (fs : FileSystem (StateM σ)) (P : σ → Prop) : Prop where
  createDirectories (path : String) {w : σ} (h : P w) : P ((fs.createDirectories path).run w).2
  writeText (path text : String) {w : σ} (h : P w) :
    P ((fs.writeText (Path.withExtension path "java.tmp") text).run w).2
  rename (old new : String) {w : σ} {reason : String}
    (hfails : ((fs.rename old new).run w).1 = .error reason) (h : P w) :
    P ((fs.rename old new).run w).2

namespace FileTree

/-- Work is done at the root, and a file with that text is at the place. -/
def HasFile (place : List String) (text : String) (t : FileTree) : Prop :=
  t.home = [] ∧ t.entry? place = some (.file text)

/-- What is written aside has a name, which is none of a unit's file. -/
theorem fileName_aside (path name : String) :
    isIdle (Path.fileName (Path.withExtension path "java.tmp")) = false ∧
      name ++ ".java" ≠ Path.fileName (Path.withExtension path "java.tmp") := by
  have hlast : (name ++ ".java").toList.getLast? = some 'a' := by simp
  have hcases : Path.fileName (Path.withExtension path "java.tmp") = ".." ∨
      ∃ stem, Path.fileName (Path.withExtension path "java.tmp") = stem ++ "." ++ "java.tmp" :=
    Path.fileName_withExtension path (by decide)
  rcases hcases with h | ⟨stem, h⟩ <;> rw [h]
  · refine ⟨by decide, fun heq => ?_⟩
    rw [heq] at hlast
    exact absurd hlast (by decide)
  · have hend : (stem ++ "." ++ "java.tmp").toList.getLast? = some 'p' := by simp
    refine ⟨Bool.eq_false_iff.2 fun hidle => ?_, fun heq => ?_⟩
    · have hempty : stem ++ "." ++ "java.tmp" = "" ∨ stem ++ "." ++ "java.tmp" = "." := by
        simpa [isIdle] using hidle
      rcases hempty with heq | heq <;>
        exact absurd (heq ▸ hend) (by decide)
    · rw [heq, hend] at hlast
      exact absurd hlast (by decide)

/-- What an operation keeps if it succeeds is kept. -/
theorem commit_spares {P : FileTree → Prop} {operation : FileTree → Except FileError FileTree}
    {t : FileTree} (hkeeps : ∀ more, operation t = .ok more → P more) (h : P t) :
    P ((commit operation : StateM FileTree _).run t).2 := by
  cases hrun : operation t with
  | error e => rwa [run_commit_of_error hrun]
  | ok more =>
    rw [run_commit hrun]
    exact hkeeps more hrun

section Files

variable {place : List String} {name text : String} {t : FileTree}

theorem hasFile_createDirectories (h : t.HasFile place text) (path : String) :
    (t.createDirectories path).2.HasFile place text :=
  have hmore := extends_createDirectories t path
  ⟨hmore.home.trans h.1, hmore.entry h.2⟩

theorem hasFile_writeText (hplace : place.getLast? = some (name ++ ".java"))
    (h : t.HasFile place text) {path written : String} {more : FileTree}
    (hwrite : t.writeText (Path.withExtension path "java.tmp") written = .ok more) :
    more.HasFile place text := by
  obtain ⟨hidle, hne⟩ := fileName_aside path name
  have hother : place.getLast? ≠ some (Path.fileName (Path.withExtension path "java.tmp")) := by
    rw [hplace]
    exact fun heq => hne (Option.some.inj heq)
  obtain ⟨hhome, hentry⟩ := entry?_of_writeText h.1 hwrite hidle hother
  exact ⟨hhome, hentry.trans h.2⟩

end Files

/-- A tree of files spares the files of units. -/
theorem system_spares {place : List String} {name : String} (text : String)
    (hplace : place.getLast? = some (name ++ ".java")) :
    (system : FileSystem (StateM FileTree)).Spares (HasFile place text) where
  createDirectories path {t} h := by
    rw [run_createDirectories]
    exact hasFile_createDirectories h path
  writeText path written {t} h := by
    rw [system_writeText]
    exact commit_spares (fun _ hwrite => hasFile_writeText hplace h hwrite) h
  rename old new {t reason} hfails h := by
    rw [system_rename] at hfails ⊢
    refine commit_spares (fun more hmove => ?_) h
    rw [run_commit hmove] at hfails
    cases hfails

end FileTree

namespace UnitSink

open EmissionLog

variable {σ : Type} (fs : FileSystem (StateM σ)) (root : String)

/-- How a computation that keeps taken names ends on a file system. -/
def onFiles {α : Type} (x : StateT TakenNames (StateM σ) α) (s : TakenNames × σ) :
    α × (TakenNames × σ) :=
  let ((a, taken), w) := (x.run s.1).run s.2
  (a, taken, w)

/-- What a unit is answered in files, and the names and the file system behind it. -/
def fileStep (u : SourceUnit) (s : TakenNames × σ) : Except EmitError Unit × (TakenNames × σ) :=
  if u.qualifiedName ∈ s.1.names then (.error (.duplicate u.qualifiedName), s)
  else
    let written := (replaceFile fs (Path.join root (relativePath u)) u.source).run s.2
    (written.1, { s.1 with names := u.qualifiedName :: s.1.names }, written.2)

theorem run_bind {α β : Type} (x : StateM σ α) (f : α → StateM σ β) (w : σ) :
    (x >>= f).run w = (f (x.run w).1).run (x.run w).2 := rfl

theorem onFiles_bind {α β : Type} (x : StateT TakenNames (StateM σ) α)
    (f : α → StateT TakenNames (StateM σ) β) (s : TakenNames × σ) :
    onFiles (x >>= f) s = onFiles (f (onFiles x s).1) (onFiles x s).2 := rfl

theorem onFiles_lift {α : Type} (x : StateM σ α) (s : TakenNames × σ) :
    onFiles (liftM x) s = ((x.run s.2).1, s.1, (x.run s.2).2) := rfl

theorem onFiles_replaceFile (path text : String) (s : TakenNames × σ) :
    onFiles (replaceFile fs.lift path text) s =
      (((replaceFile fs path text).run s.2).1, s.1, ((replaceFile fs path text).run s.2).2) := by
  have hcreate : onFiles (fs.lift.createDirectories (Path.parent path)) s = _ := onFiles_lift _ s
  unfold replaceFile
  generalize Path.withExtension path "java.tmp" = aside
  rw [onFiles_bind, hcreate, run_bind]
  obtain ⟨_ | _, w⟩ := (fs.createDirectories (Path.parent path)).run s.2
  · rfl
  have hwrite : onFiles (fs.lift.writeText aside text) (s.1, w) = _ := onFiles_lift _ (s.1, w)
  dsimp only
  rw [onFiles_bind, hwrite, run_bind]
  obtain ⟨_ | _, w⟩ := (fs.writeText aside text).run w
  · rfl
  have hmove : onFiles (fs.lift.rename aside path) (s.1, w) = _ := onFiles_lift _ (s.1, w)
  dsimp only
  rw [onFiles_bind, hmove, run_bind]
  obtain ⟨_ | _, w⟩ := (fs.rename aside path).run w
  · rfl
  · rfl

theorem onFiles_emit (u : SourceUnit) (s : TakenNames × σ) :
    onFiles ((inFiles fs.lift root).emit u) s = fileStep fs root u s := by
  have hget : onFiles (get : StateT TakenNames (StateM σ) _) s = (s.1, s) := rfl
  unfold inFiles fileStep
  dsimp only
  rw [onFiles_bind, hget]
  dsimp only
  split
  · rfl
  · rw [onFiles_bind]
    exact onFiles_replaceFile fs _ u.source _

/-- A file is written in three operations, of which the first to fail gives the answer. -/
theorem replaceFile_cases (path text : String) (w : σ) :
    let directory := Path.parent path
    let aside := Path.withExtension path "java.tmp"
    let made := (fs.createDirectories directory).run w
    let written := (fs.writeText aside text).run made.2
    let moved := (fs.rename aside path).run written.2
    let replaced := (replaceFile fs path text).run w
    (∃ reason, replaced = (.error (.io directory reason), made.2)) ∨
      (∃ reason, replaced = (.error (.io aside reason), written.2)) ∨
      (∃ reason, moved.1 = .error reason ∧ replaced = (.error (.io path reason), moved.2)) ∨
      replaced = (.ok (), moved.2) := by
  dsimp only
  unfold replaceFile
  rw [run_bind]
  obtain ⟨reason | _, w⟩ := (fs.createDirectories (Path.parent path)).run w
  · exact .inl ⟨reason, rfl⟩
  dsimp only
  rw [run_bind]
  obtain ⟨reason | _, w⟩ := (fs.writeText (Path.withExtension path "java.tmp") text).run w
  · exact .inr (.inl ⟨reason, rfl⟩)
  dsimp only
  rw [run_bind]
  obtain ⟨reason | _, w⟩ := (fs.rename (Path.withExtension path "java.tmp") path).run w
  · exact .inr (.inr (.inl ⟨reason, rfl, rfl⟩))
  · exact .inr (.inr (.inr rfl))

/-- Writing a file can fail, but finds no duplicates. -/
theorem not_refuses_replaceFile (path text : String) (w : σ) :
    ¬Refuses ((replaceFile fs path text).run w).1 := by
  rcases replaceFile_cases fs path text w with ⟨_, h⟩ | ⟨_, h⟩ | ⟨_, -, h⟩ | h <;> rw [h]
  · exact not_refuses_io _ _
  · exact not_refuses_io _ _
  · exact not_refuses_io _ _
  · exact not_refuses_ok

/-- In files offered units take their names, whether they are written or not. -/
theorem takes_offers : Takes (fileStep fs root) (fun s name => name ∈ s.1.names) Offers where
  refuses u s := by
    unfold fileStep
    split
    · next h => exact iff_of_true ⟨_, rfl⟩ h
    · next h => exact iff_of_false (not_refuses_replaceFile fs _ _ _) h
  takes u s name := by
    unfold fileStep Offers
    split
    · next h =>
      refine (or_iff_left_of_imp ?_).symm
      rintro rfl
      exact h
    · rw [List.mem_cons, or_comm, eq_comm]

/-- What a file system spares is as it was behind a file that could not be written. -/
theorem replaceFile_spares {P : σ → Prop} (h : fs.Spares P) (path text : String) {w : σ}
    {e : EmitError} (hfails : ((replaceFile fs path text).run w).1 = .error e) (hw : P w) :
    P ((replaceFile fs path text).run w).2 := by
  have hmade := h.createDirectories (Path.parent path) hw
  have hwritten := h.writeText path text hmade
  rcases replaceFile_cases fs path text w with ⟨_, hrun⟩ | ⟨_, hrun⟩ | ⟨_, hmoved, hrun⟩ | hrun <;>
    rw [hrun] at hfails ⊢
  · exact hmade
  · exact hwritten
  · exact h.rename _ _ hmoved hwritten
  · cases hfails

theorem fileStep_spares {P : σ → Prop} (h : fs.Spares P) (u : SourceUnit) {s : TakenNames × σ}
    {e : EmitError} (hfails : (fileStep fs root u s).1 = .error e) (hs : P s.2) :
    P (fileStep fs root u s).2.2 := by
  unfold fileStep at hfails ⊢
  split
  · exact hs
  · next hnew =>
    rw [if_neg hnew] at hfails
    exact replaceFile_spares fs h _ _ hfails hs

/-- The log of units that are offered in memory, where there is none at first, and the units held
    behind it. -/
def inMemory (us : List SourceUnit) : EmissionLog × MemoryUnits :=
  (memorySink.offer us : StateM MemoryUnits _).run .empty

/-- The log of units that are offered in files. -/
def logInFiles (us : List SourceUnit) (w : σ) : EmissionLog :=
  (onFiles ((inFiles fs.lift root).offer us) ({}, w)).1

/-- In memory the duplicates are the emitted units, and what is held is what was accepted. In files they
    are the offered units, whether they were emitted or not: so they are the emitted ones just if nothing
    that failed is offered again, on any file system. What a file system spares is as it was behind an
    emission that failed. -/
theorem refuses_emitted_iff (us : List SourceUnit) (w : σ) :
    (RefusesJust Accepts (inMemory us).1 ∧ (inMemory us).2.values = (inMemory us).1.accepted) ∧
      RefusesJust Offers (logInFiles fs root us w) ∧
      (RefusesJust Accepts (logInFiles fs root us w) ↔ RetriesNone (logInFiles fs root us w)) ∧
      ∀ P, fs.Spares P → ∀ u s e, P s.2 → (onFiles ((inFiles fs.lift root).emit u) s).1 = .error e →
        P (onFiles ((inFiles fs.lift root).emit u) s).2.2 := by
  have hmemory : inMemory us = ofStep MemoryUnits.step .empty us :=
    run_offer (m := StateM MemoryUnits) StateT.run (fun _ _ => rfl) (fun _ _ _ => rfl)
      MemoryUnits.run_emit us _
  have hfiles : onFiles ((inFiles fs.lift root).offer us) ({}, w) =
      ofStep (fileStep fs root) ({}, w) us :=
    run_offer onFiles (fun _ _ => rfl) onFiles_bind (onFiles_emit fs root) us _
  have hoffered : RefusesJust Offers (logInFiles fs root us w) := by
    rw [logInFiles, hfiles]
    exact (takes_offers fs root).refusesJust (fun _ => List.not_mem_nil) us
  refine ⟨?_, hoffered, hoffered.accepts_iff, fun P hP u s e hs hfails => ?_⟩
  · rw [hmemory]
    exact ⟨MemoryUnits.takes_accepts.refusesJust (fun _ => List.not_mem_nil) us,
      MemoryUnits.values_ofStep us .empty⟩
  · rw [onFiles_emit] at hfails ⊢
    exact fileStep_spares fs root hP u hfails hs

end UnitSink

def beacon : SourceUnit :=
  { package := "mymod.gen", name := "Beacon", imports := [], source := "class Beacon {}" }

def rock : SourceUnit := { package := "rocks", name := "Rock", imports := [], source := "class Rock {}" }

/-- What a unit is answered on a tree of files, and the names and the tree behind it. -/
def UnitSink.emitToTree (u : SourceUnit) (s : TakenNames × FileTree) :
    Except EmitError Unit × (TakenNames × FileTree) :=
  onFiles ((inFiles (FileTree.system : FileSystem (StateM FileTree)).lift "").emit u) s

/-- The state behind a unit, on a tree with a file where the directory of another package would be. -/
def beaconEmitted : TakenNames × FileTree :=
  (UnitSink.emitToTree beacon ({}, .ofList [("rocks", .file "notes")])).2

open UnitSink FileTree in
/-- The file of a unit is left alone by another that cannot be written. -/
theorem UnitSink.refuses_emitted_iff_rock :
    (emitToTree rock beaconEmitted).1 = .error (.io "rocks" "file exists") ∧
      HasFile ["mymod", "gen", "Beacon.java"] beacon.source beaconEmitted.2 ∧
      HasFile ["mymod", "gen", "Beacon.java"] beacon.source (emitToTree rock beaconEmitted).2.2 := by
  have hfails : (emitToTree rock beaconEmitted).1 = .error (.io "rocks" "file exists") := by decide
  have hthere : HasFile ["mymod", "gen", "Beacon.java"] beacon.source beaconEmitted.2 :=
    ⟨by decide, by decide⟩
  have hname : ["mymod", "gen", "Beacon.java"].getLast? = some ("Beacon" ++ ".java") := by decide
  exact ⟨hfails, hthere, (refuses_emitted_iff FileTree.system "" [] {}).2.2.2 _
    (system_spares beacon.source hname) rock beaconEmitted _ hthere hfails⟩

/-- A tree with a file where the directory of a package would be. -/
def blocked : FileTree := .ofList [("mymod", .file "notes")]

/-- A file system on which making a directory fails once. -/
def recovering : FileSystem (StateM Bool) where
  isDirectory _ := return true
  list _ := return .ok []
  readText _ := return .ok ""
  createDirectories _ := do
    let recovered ← get
    set true
    return if recovered then .ok () else .error "busy"
  writeText _ _ := return .ok ()
  rename _ _ := return .ok ()

open UnitSink EmissionLog in
/-- A unit that was never emitted is refused as a duplicate, where its directory cannot be made and
    where it could be by then. -/
theorem UnitSink.exists_refused_unemitted :
    (logInFiles FileTree.system "" [beacon, beacon] blocked = [
        (beacon, .error (.io "mymod/gen" "not a directory")),
        (beacon, .error (.duplicate "mymod.gen.Beacon"))] ∧
      ¬RefusesJust Accepts (logInFiles FileTree.system "" [beacon, beacon] blocked)) ∧
    logInFiles recovering "" [beacon, beacon] false = [
      (beacon, .error (.io "mymod/gen" "busy")),
      (beacon, .error (.duplicate "mymod.gen.Beacon"))] ∧
    logInFiles recovering "" [beacon] true = [(beacon, .ok ())] := by
  have hblocked : logInFiles FileTree.system "" [beacon, beacon] blocked = [
      (beacon, .error (.io "mymod/gen" "not a directory")),
      (beacon, .error (.duplicate "mymod.gen.Beacon"))] := by decide
  refine ⟨⟨hblocked, fun haccepts => ?_⟩, by decide, by decide⟩
  obtain ⟨e, he, -, hok⟩ := (haccepts [(beacon, .error (.io "mymod/gen" "not a directory"))] _ _ []
    hblocked).1 ⟨_, rfl⟩
  obtain rfl := List.mem_singleton.1 he
  cases hok

end EntityWeaver
