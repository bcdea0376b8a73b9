import EntityWeaver.Files.Tree
import EntityWeaver.Proofs.Except
import EntityWeaver.Proofs.Files.Directories
import EntityWeaver.Proofs.OrderedMap

/-! A tree of files serves the directories below each of its directories.

    A root leads to a place in the tree, and a name behind it to the place below. What operations put
    into the tree stands further down and replaces no directory, so the root goes on leading there:

        path      root         root/name          root/name/file
        parts     parts root   ..., name          ..., name, file
        place     place        place ++ [name]    place ++ [name, file] -/

namespace EntityWeaver.FileTree

open EntityWeaver.Path (IsName IsDirectoryPath)

section Paths

variable {longest room : Nat} {path name : String}

/-- The text in front of the first slash is there, and if it is empty, there is a slash. -/
theorem exists_split_eq_cons (h : path ≠ "") : ∃ part rest,
    (path.toList.splitOn '/').map String.ofList = part :: rest ∧ (part = "" → rest ≠ []) := by
  obtain ⟨part, rest, hparts⟩ := List.exists_cons_of_ne_nil (List.splitOn_ne_nil '/' path.toList)
  refine ⟨String.ofList part, rest.map String.ofList, by rw [hparts, List.map_cons], ?_⟩
  intro hpart hrest
  have hjoined : ['/'].intercalate (path.toList.splitOn '/') = path.toList :=
    List.intercalate_splitOn '/'
  rw [hparts, List.map_eq_nil_iff.1 hrest, String.ofList_eq_empty_iff.1 hpart] at hjoined
  exact h (String.toList_eq_nil_iff.1 hjoined.symm)

/-- A name behind a directory is one more part. -/
theorem parts_join (hpath : IsDirectoryPath room path) (hname : IsName longest name) :
    parts (Path.join path name) = parts path ++ [name] := by
  have hsplit : (Path.join path name).toList.splitOn '/' =
      path.toList.splitOn '/' ++ [name.toList] := by
    rw [hname.toList_join hpath, List.splitOn_append_cons_self,
      List.splitOn_eq_singleton hname.slash]
  obtain ⟨part, rest, hparts, hroot⟩ := exists_split_eq_cons hpath.ne_empty
  rw [parts, parts, hsplit, List.map_append, hparts]
  by_cases hpart : part = ""
  · subst hpart
    obtain ⟨next, rest, rfl⟩ := List.exists_cons_of_ne_nil (hroot rfl)
    simp
  · simp [hpart]

theorem isValidPath_of_isDirectoryPath (hpath : IsDirectoryPath 4095 path) :
    isValidPath path = true := by
  have hnull : path.toList.contains '\x00' = false := by simpa using hpath.null
  rw [isValidPath, hnull, decide_eq_true hpath.short]
  rfl

theorem find_eq_walk (t : FileTree) (hpath : IsDirectoryPath 4095 path) :
    t.find path = t.walk (parts path) := by
  rw [find, if_neg hpath.ne_empty, if_pos (isValidPath_of_isDirectoryPath hpath)]

/-- A name leads one step down. -/
theorem step_name (hname : IsName longest name) (place : List String) :
    step place name = place ++ [name] := by
  have hslash : name ≠ "/" := fun h => hname.slash (h ▸ List.mem_singleton.2 rfl)
  rw [step, if_neg (not_or_intro hname.ne_empty hname.ne_here), if_neg hname.ne_above,
    if_neg hslash]

end Paths

section Places

variable {t more : FileTree} {place place' : List String} {ps : List String} {name : String}

theorem entry?_insert (hplace : place ≠ []) (e : FileEntry) (other : List String) :
    entry? (t.insert place e) other = if other = place then some e else t.entry? other := by
  unfold entry? insert
  rw [OrderedMap.get?_put]
  by_cases hother : other = place
  · rw [if_pos hother, if_neg (hother ▸ hplace), if_pos hother]
  · rw [if_neg hother, if_neg hother]

/-- Directories stay where an entry is put that replaces none. -/
theorem entry?_insert_of_directory (hplace : place ≠ []) {e : FileEntry}
    (hfree : t.entry? place ≠ some .directory) {other : List String}
    (hother : t.entry? other = some .directory) :
    entry? (t.insert place e) other = some .directory := by
  have hne : other ≠ place := fun heq => hfree (heq ▸ hother)
  rw [entry?_insert hplace, if_neg hne, hother]

theorem enter_of_directory (h : t.entry? place = some .directory) : t.enter place = .ok place := by
  rw [enter, h]

/-- What is entered is a directory. -/
theorem of_enter_eq_ok (h : t.enter place = .ok place') :
    place = place' ∧ t.entry? place = some .directory := by
  unfold enter at h
  split at h
  · next hplace => exact ⟨Except.ok.inj h, hplace⟩
  · cases h
  · cases h

/-- Parts lead to the same place in a tree with more directories. -/
theorem walk_mono (hhome : more.home = t.home)
    (hkept : ∀ q, t.entry? q = some .directory → more.entry? q = some .directory)
    (h : t.walk ps = .ok place) : more.walk ps = .ok place := by
  unfold walk at h ⊢
  rw [hhome]
  generalize t.home = start at h ⊢
  induction ps generalizing start with
  | nil => exact h
  | cons p ps ih =>
    rw [List.foldlM_cons] at h ⊢
    obtain ⟨next, hnext, hrest⟩ := bind_eq_ok.1 h
    obtain ⟨entered, hentered, hstep⟩ := map_eq_ok.1 hnext
    obtain ⟨rfl, hdirectory⟩ := of_enter_eq_ok hentered
    have hentered' : more.enter start = .ok start := enter_of_directory (hkept start hdirectory)
    exact bind_eq_ok.2 ⟨next, map_eq_ok.2 ⟨start, hentered', hstep⟩, ih next hrest⟩

/-- A name leads from a directory to the place below it. -/
theorem walk_concat {longest : Nat} (hname : IsName longest name) (hwalk : t.walk ps = .ok place)
    (hplace : t.entry? place = some .directory) : t.walk (ps ++ [name]) = .ok (place ++ [name]) := by
  unfold walk at hwalk ⊢
  rw [List.foldlM_append, hwalk, ok_bind, List.foldlM_cons, enter_of_directory hplace, Except.map,
    step_name hname]
  rfl

/-- A place right below another one ends in one more name. -/
theorem below_eq_some_iff {p : List String} :
    (if p.dropLast = place then p.getLast? else none) = some name ↔ p = place ++ [name] := by
  constructor
  · intro h
    split at h
    · next hplace =>
      obtain ⟨above, rfl⟩ := List.getLast?_eq_some_iff.1 h
      rw [← hplace, List.dropLast_concat]
    · cases h
  · rintro rfl
    rw [List.dropLast_concat, if_pos rfl, List.getLast?_concat]

/-- A directory lists the names that lead to something right below it, each once. -/
theorem list_eq_ok {path : String} (hfind : t.find path = .ok place)
    (hplace : t.entry? place = some .directory) : ∃ names, t.list path = .ok names ∧
      names.Nodup ∧ ∀ name, name ∈ names ↔ (t.entry? (place ++ [name])).isSome := by
  refine ⟨_, by rw [list, hfind, ok_bind, enter_of_directory hplace]; rfl, ?_, fun name => ?_⟩
  · refine List.nodup_reverse.2 (List.Nodup.filterMap (fun p q last hp hq => ?_) t.entries.distinct)
    rw [below_eq_some_iff.1 hp, below_eq_some_iff.1 hq]
  · simp only [List.mem_reverse, List.mem_filterMap, below_eq_some_iff, exists_eq_right]
    unfold entry?
    rw [if_neg (by simp), OrderedMap.mem_keys_iff]

section Making

variable {longest : Nat} {above : List String} (hname : IsName longest name)
  (hwalk : t.walk above.reverse = .ok place) (hplace : t.entry? place = some .directory)

include hname hwalk hplace

theorem makeDirectory_name (hvalid : isValidName name = true) : t.makeDirectory (name :: above) =
    if (t.entry? (place ++ [name])).isSome then .error .occupied
    else .ok (t.insert (place ++ [name]) .directory) := by
  have hpart : (name :: above).dropWhile (· = "") = name :: above :=
    List.dropWhile_cons_of_neg (by simpa using hname.ne_empty)
  rw [makeDirectory, hpart]
  simp only [hwalk, ok_bind, enter_of_directory hplace, step_name hname, hname.ne_here,
    hname.ne_above, false_or, hvalid, if_true]

/-- A directory that is there need not be made. -/
theorem ensureDirectory_of_directory (hvalid : isValidName name = true)
    (hthere : t.entry? (place ++ [name]) = some .directory) :
    t.ensureDirectory (name :: above) = .ok t := by
  have hbehind := walk_concat hname hwalk hplace
  rw [← List.reverse_cons] at hbehind
  rw [ensureDirectory, makeDirectory_name hname hwalk hplace hvalid, hthere]
  simp only [Option.isSome_some, if_true, hbehind, isDirectory, hthere, beq_self_eq_true]

theorem ensureDirectory_of_none (hvalid : isValidName name = true)
    (hnew : t.entry? (place ++ [name]) = none) :
    t.ensureDirectory (name :: above) = .ok (t.insert (place ++ [name]) .directory) := by
  rw [ensureDirectory, makeDirectory_name hname hwalk hplace hvalid, hnew]
  rfl

end Making

end Places

/-- What a tree shows of the directories below a root that leads to a place. -/
structure Shows (root : String) (place : List String) (t : FileTree) (c : Directories) : Prop where
  walk : t.walk (parts root) = .ok place
  root : t.entry? place = some .directory
  directory (name : String) : IsName 255 name →
    t.entry? (place ++ [name]) = (c name).map fun _ => .directory
  file (name file : String) : IsName 255 name →
    t.entry? (place ++ [name, file]) = (c.text? name file).map .file

/-- A directory with nothing in it shows no directories. -/
theorem shows_empty {root : String} {place : List String} {t : FileTree}
    (hwalk : t.walk (parts root) = .ok place) (hroot : t.entry? place = some .directory)
    (hempty : ∀ name below, t.entry? (place ++ name :: below) = none) :
    Shows root place t .empty where
  walk := hwalk
  root := hroot
  directory name _ := hempty name []
  file name file _ := hempty name [file]

namespace Shows

variable {root : String} {place : List String} {t : FileTree} {c : Directories} {name file : String}

/-- Something below the root that replaces no directory leaves the root as it is. -/
theorem walk_insert (h : Shows root place t c) {below : List String} (hbelow : below ≠ [])
    (hfree : t.entry? (place ++ below) ≠ some .directory) (e : FileEntry) :
    (t.insert (place ++ below) e).walk (parts root) = .ok place ∧
      entry? (t.insert (place ++ below) e) place = some .directory :=
  have hne : place ++ below ≠ [] := List.append_ne_nil_of_right_ne_nil _ hbelow
  have hhome : (t.insert (place ++ below) e).home = t.home := rfl
  ⟨walk_mono hhome (fun _ => entry?_insert_of_directory hne hfree) h.walk,
    entry?_insert_of_directory hne hfree h.root⟩

/-- A new directory has no files. -/
theorem insert_directory (h : Shows root place t c) (hname : IsName 255 name) (hnew : c name = none) :
    Shows root place (t.insert (place ++ [name]) .directory) (c.make name) := by
  have hfree : t.entry? (place ++ [name]) ≠ some .directory := by
    rw [h.directory name hname, hnew]
    simp
  obtain ⟨hwalk, hroot⟩ := h.walk_insert (List.cons_ne_nil _ _) hfree .directory
  refine ⟨hwalk, hroot, fun other hother => ?_, fun other otherFile hother => ?_⟩
  · rw [entry?_insert (by simp), h.directory other hother]
    by_cases heq : other = name <;> simp [heq, Directories.make]
  · rw [entry?_insert (by simp), if_neg (by simp), h.file other otherFile hother,
      Directories.text?_make]

/-- A file that is written has its text. -/
theorem insert_file (h : Shows root place t c) (hname : IsName 255 name) (hthere : (c name).isSome)
    (text : String) :
    Shows root place (t.insert (place ++ [name, file]) (.file text)) (c.write name file text) := by
  have hfree : t.entry? (place ++ [name, file]) ≠ some .directory := by
    rw [h.file name file hname]
    cases c.text? name file <;> simp
  obtain ⟨hwalk, hroot⟩ := h.walk_insert (List.cons_ne_nil _ _) hfree (.file text)
  refine ⟨hwalk, hroot, fun other hother => ?_, fun other otherFile hother => ?_⟩
  · obtain ⟨files, hfiles⟩ := Option.isSome_iff_exists.1 hthere
    rw [entry?_insert (by simp), if_neg (by simp), h.directory other hother]
    by_cases heq : other = name
    · simp [heq, Directories.write, hfiles]
    · simp [heq, Directories.write]
  · rw [entry?_insert (by simp), h.file other otherFile hother, Directories.text?_write]
    by_cases heq : other = name ∧ otherFile = file <;> simp [heq]

theorem entry?_directory (h : Shows root place t c) (hname : IsName 255 name)
    (hthere : (c name).isSome) : t.entry? (place ++ [name]) = some .directory := by
  obtain ⟨files, hfiles⟩ := Option.isSome_iff_exists.1 hthere
  rw [h.directory name hname, hfiles, Option.map_some]

section Operations

variable (hroot : IsDirectoryPath 3583 root) (h : Shows root place t c) (hname : IsName 255 name)

include hroot hname

theorem isDirectoryPath_join : IsDirectoryPath 4095 (Path.join root name) :=
  { hroot.join hname with short := Nat.le_trans (hroot.join hname).short (by decide) }

include h

theorem find_directory : t.find (Path.join root name) = .ok (place ++ [name]) := by
  rw [find_eq_walk t (isDirectoryPath_join hroot hname), parts_join hroot hname]
  exact walk_concat hname h.walk h.root

theorem find_file (hfile : IsName 255 file) (hthere : (c name).isSome) :
    t.find (Path.join (Path.join root name) file) = .ok (place ++ [name, file]) := by
  rw [find_eq_walk t ((hroot.join hname).join hfile), parts_join (hroot.join hname) hfile,
    parts_join hroot hname]
  have hwalk := walk_concat hfile (walk_concat hname h.walk h.root) (h.entry?_directory hname hthere)
  simpa only [List.append_assoc, List.singleton_append] using hwalk

theorem leadsToDirectory_eq : t.leadsToDirectory (Path.join root name) = (c name).isSome := by
  rw [leadsToDirectory, h.find_directory hroot hname]
  simp only [isDirectory, h.directory name hname]
  cases c name <;> rfl

theorem list_spec (hthere : (c name).isSome) : ∃ files, t.list (Path.join root name) = .ok files ∧
    files.Nodup ∧ ∀ file, file ∈ files ↔ (c.text? name file).isSome := by
  obtain ⟨files, hfiles, hnodup, hmem⟩ :=
    list_eq_ok (h.find_directory hroot hname) (h.entry?_directory hname hthere)
  refine ⟨files, hfiles, hnodup, fun file => ?_⟩
  rw [hmem, List.append_assoc, List.singleton_append, h.file name file hname, Option.isSome_map]

theorem readText_eq (hfile : IsName 255 file) {text : String}
    (hthere : c.text? name file = some text) :
    t.readText (Path.join (Path.join root name) file) = .ok text := by
  have hdirectory : (c name).isSome := by
    cases hfiles : c name with
    | none => simp [Directories.text?, hfiles] at hthere
    | some _ => rfl
  have hentry := h.file name file hname
  rw [hthere, Option.map_some] at hentry
  rw [readText, h.find_file hroot hname hfile hdirectory, ok_bind, hentry]

theorem createDirectories_spec : ∃ t', t.createDirectories (Path.join root name) = (.ok (), t') ∧
    Shows root place t' (c.make name) := by
  have hpath := isDirectoryPath_join hroot hname
  have hwalk : t.walk (parts root).reverse.reverse = .ok place := by
    rw [List.reverse_reverse]
    exact h.walk
  have hvalid : isValidName name = true := decide_eq_true hname.short
  have hparts : (parts (Path.join root name)).reverse = name :: (parts root).reverse := by
    rw [parts_join hroot hname, List.reverse_concat]
  rw [createDirectories, if_pos (isValidPath_of_isDirectoryPath hpath), hparts, ensureBelow]
  cases hthere : c name with
  | none =>
    have hnew : t.entry? (place ++ [name]) = none := by rw [h.directory name hname, hthere]; rfl
    rw [ensureDirectory_of_none hname hwalk h.root hvalid hnew]
    exact ⟨_, rfl, h.insert_directory hname hthere⟩
  | some files =>
    have hsome : (c name).isSome := by rw [hthere]; rfl
    rw [ensureDirectory_of_directory hname hwalk h.root hvalid (h.entry?_directory hname hsome),
      c.make_eq hsome]
    exact ⟨t, rfl, h⟩

theorem writeText_spec (hfile : IsName 255 file) (hthere : (c name).isSome) (text : String) :
    ∃ t', t.writeText (Path.join (Path.join root name) file) text = .ok t' ∧
      Shows root place t' (c.write name file text) := by
  refine ⟨_, ?_, h.insert_file hname hthere text⟩
  have hvalid : ((place ++ [name, file]).getLast?.any isValidName) = true := by
    simp [isValidName, hfile.short]
  have hfree : t.isDirectory (place ++ [name, file]) = false := by
    rw [isDirectory, h.file name file hname]
    cases c.text? name file <;> rfl
  have hparent : (place ++ [name, file]).dropLast = place ++ [name] := by simp
  rw [writeText, filePlace, h.find_file hroot hname hfile hthere, ok_bind, hvalid, hfree, hparent,
    enter_of_directory (h.entry?_directory hname hthere)]
  rfl

end Operations

end Shows

theorem run_commit {operation : FileTree → Except FileError FileTree} {t changed : FileTree}
    (h : operation t = .ok changed) :
    (commit operation : StateM FileTree _).run t = (.ok (), changed) := by
  rw [commit, StateT.run_bind, StateT.run_get, pure_bind]
  dsimp only
  rw [h]
  rfl

theorem run_commit_of_error {operation : FileTree → Except FileError FileTree} {t : FileTree}
    {e : FileError} (h : operation t = .error e) :
    (commit operation : StateM FileTree _).run t = (.error e.reason, t) := by
  rw [commit, StateT.run_bind, StateT.run_get, pure_bind]
  dsimp only
  rw [h]
  rfl

theorem run_createDirectories (t : FileTree) (path : String) :
    (system.createDirectories path : StateM FileTree _).run t =
      ((t.createDirectories path).1.mapError FileError.reason, (t.createDirectories path).2) := rfl

theorem system_writeText (path text : String) :
    (system.writeText path text : StateM FileTree _) = commit fun t => t.writeText path text := rfl

theorem system_rename (old new : String) :
    (system.rename old new : StateM FileTree _) = commit fun t => t.rename old new := rfl

/-- A tree serves the directories below any root in it that leaves room for their names. -/
theorem system_serves {root : String} (hroot : IsDirectoryPath 3583 root) (place : List String) :
    (system : FileSystem (StateM FileTree)).Serves root 255 (Shows root place) where
  isDirectory hname t h := ⟨h.leadsToDirectory_eq hroot hname, h⟩
  list hname hthere t h := by
    obtain ⟨files, hlist, hspec⟩ := h.list_spec hroot hname hthere
    exact ⟨⟨files, congrArg (Except.mapError FileError.reason) hlist, hspec⟩, h⟩
  readText hname hfile hthere t h :=
    ⟨congrArg (Except.mapError FileError.reason) (h.readText_eq hroot hname hfile hthere), h⟩
  createDirectories {c name} hname t h := by
    obtain ⟨made, hmade, hshows⟩ := h.createDirectories_spec hroot hname
    rw [run_createDirectories, hmade]
    exact ⟨rfl, hshows⟩
  writeText {c name file} text hname hfile hthere t h := by
    obtain ⟨written, hwritten, hshows⟩ := h.writeText_spec hroot hname hfile hthere text
    rw [system_writeText, run_commit hwritten]
    exact ⟨rfl, hshows⟩

end EntityWeaver.FileTree
