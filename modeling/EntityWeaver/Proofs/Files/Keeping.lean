import EntityWeaver.Proofs.Files.Tree
import Mathlib.Data.List.TakeWhile

/-! What a tree of files keeps.

    Making directories adds to a tree and changes nothing that is there. Writing a file changes one
    place, and where work is done at the root that place is called by the last part of the path: single
    points and no part at all lead to directories, and so does a double point, since everything above a
    directory that was walked through is one. -/

namespace EntityWeaver

namespace Path

/-- A path is its directory, up to the last slash, and its file name. -/
theorem exists_directory (path : String) : ∃ directory,
    path.toList = directory ++ (fileName path).toList ∧ '/' ∉ (fileName path).toList ∧
      directory.getLast?.all (· = '/') = true := by
  let back := path.toList.reverse
  refine ⟨(back.dropWhile (· ≠ '/')).reverse, ?_, ?_, ?_⟩
  · rw [fileName, String.toList_ofList, ← List.reverse_append, List.takeWhile_append_dropWhile,
      List.reverse_reverse]
  · rw [fileName, String.toList_ofList, List.mem_reverse]
    intro h
    simpa using List.mem_takeWhile_imp h
  · rw [List.getLast?_reverse]
    cases hdrop : back.dropWhile (· ≠ '/') with
    | nil => rfl
    | cons c rest =>
      have hc := List.head?_dropWhile_not (· ≠ '/') back
      rw [hdrop] at hc
      simpa using hc

theorem fileName_append {path : String} {directory name : List Char}
    (hdirectory : directory.getLast?.all (· = '/') = true) (hname : '/' ∉ name)
    (h : path.toList = directory ++ name) : fileName path = String.ofList name := by
  have hall : ∀ c ∈ name.reverse, decide (c ≠ '/') = true := fun c hc =>
    decide_eq_true fun heq => hname (heq ▸ List.mem_reverse.1 hc)
  have hstop : directory.reverse.takeWhile (· ≠ '/') = [] := by
    rw [← List.head?_reverse] at hdirectory
    cases hback : directory.reverse with
    | nil => rfl
    | cons c rest =>
      rw [hback] at hdirectory
      exact List.takeWhile_cons_of_neg (by simpa using hdirectory)
  rw [fileName, h, List.reverse_append, List.takeWhile_append_of_pos hall, hstop, List.append_nil,
    List.reverse_reverse]

theorem mem_of_mem_splitExtension {name : String} {c : Char}
    (h : c ∈ (splitExtension name).1.toList) : c ∈ name.toList := by
  unfold splitExtension at h
  dsimp only at h
  split at h
  · next d stem hdrop =>
    have hsuffix := (List.dropWhile_suffix (· ≠ '.') (l := name.toList.reverse)).subset
    rw [hdrop] at hsuffix
    rw [String.toList_ofList, List.mem_reverse] at h
    exact List.mem_reverse.1 (hsuffix (List.mem_cons_of_mem '.' h))
  · exact h

/-- A path with another extension has its file name with that extension, or leads up. -/
theorem fileName_withExtension (path : String) {extension : String}
    (hslash : '/' ∉ extension.toList) : fileName (withExtension path extension) = ".." ∨
      ∃ stem, fileName (withExtension path extension) = stem ++ "." ++ extension := by
  obtain ⟨directory, hpath, hname, hdirectory⟩ := exists_directory path
  have htake : path.toList.take (path.length - (fileName path).length) = directory := by
    rw [← String.length_toList, ← String.length_toList, hpath, List.length_append,
      Nat.add_sub_cancel, List.take_left]
  unfold withExtension
  dsimp only
  rw [htake]
  split
  · left
    exact fileName_append hdirectory (by decide) (by simp)
  · next stem _ _ heq =>
    have hstem : '/' ∉ stem.toList := fun h =>
      hname (mem_of_mem_splitExtension (by rw [heq]; exact h))
    have hslash' : '/' ∉ (stem ++ "." ++ extension).toList := by simp [hstem, hslash]
    exact .inr ⟨stem, (fileName_append hdirectory hslash' (by simp)).trans String.ofList_toList⟩

end Path

namespace FileTree

/-- The last part of a path is its file name. -/
theorem getLast?_parts (path : String) : (parts path).getLast? = some (Path.fileName path) := by
  have hsplit : ((path.toList.splitOn '/').map String.ofList).getLast? =
      some (Path.fileName path) := by
    obtain ⟨directory, hpath, hname, hdirectory⟩ := Path.exists_directory path
    rcases List.eq_nil_or_concat directory with rfl | ⟨above, c, rfl⟩
    · rw [hpath, List.nil_append, List.splitOn_eq_singleton hname]
      exact congrArg some String.ofList_toList
    · obtain rfl : c = '/' := by simpa using hdirectory
      rw [hpath, List.concat_eq_append, List.append_assoc, List.singleton_append,
        List.splitOn_append_cons_self, List.splitOn_eq_singleton hname, List.map_append,
        List.getLast?_append]
      exact congrArg some String.ofList_toList
  unfold parts
  split
  · next part rest heq =>
    rw [heq] at hsplit
    simpa using hsplit
  · exact hsplit

/-! ### Making directories -/

/-- A tree with everything that another one has, and with work done in the same place. -/
structure Extends (t more : FileTree) : Prop where
  home : more.home = t.home
  entry {place : List String} {e : FileEntry} : t.entry? place = some e → more.entry? place = some e

namespace Extends

variable {t more most : FileTree}

theorem refl (t : FileTree) : t.Extends t := ⟨rfl, id⟩

theorem trans (h : t.Extends more) (h' : more.Extends most) : t.Extends most :=
  ⟨h'.home.trans h.home, fun hentry => h'.entry (h.entry hentry)⟩

end Extends

variable {t made : FileTree} {place : List String} {backwards : List String}

theorem extends_insert (hnew : t.entry? place = none) (e : FileEntry) :
    t.Extends (t.insert place e) := by
  have hplace : place ≠ [] := by
    rintro rfl
    cases hnew
  refine ⟨rfl, fun {other d} hother => ?_⟩
  have hne : other ≠ place := by
    rintro rfl
    rw [hnew] at hother
    cases hother
  rw [entry?_insert hplace, if_neg hne, hother]

theorem extends_makeDirectory (h : t.makeDirectory backwards = .ok made) : t.Extends made := by
  unfold makeDirectory at h
  split at h
  · cases h
  · obtain ⟨above, _, h⟩ := bind_eq_ok.1 h
    obtain ⟨entered, _, h⟩ := bind_eq_ok.1 h
    dsimp only at h
    split_ifs at h with hthere
    cases h
    refine extends_insert ?_ _
    rw [not_or, not_or, Option.not_isSome_iff_eq_none] at hthere
    exact hthere.2.2

theorem extends_ensureDirectory (h : t.ensureDirectory backwards = .ok made) : t.Extends made := by
  unfold ensureDirectory at h
  split at h
  · next hmade =>
    cases h
    exact extends_makeDirectory hmade
  · split at h
    · split_ifs at h
      cases h
      exact .refl t
    · cases h

theorem extends_ensureBelow {above : FileTree → Except FileError Unit × FileTree}
    (habove : ∀ t : FileTree, t.Extends (above t).2) (t : FileTree) (backwards : List String) :
    t.Extends (t.ensureBelow above backwards).2 := by
  unfold ensureBelow
  split
  · next hmade => exact extends_ensureDirectory hmade
  · have hmore := habove t
    split
    · next hrun =>
      rw [hrun] at hmore
      split
      · next hmade => exact hmore.trans (extends_ensureDirectory hmade)
      · exact hmore
    · exact hmore
  · exact .refl t

theorem extends_createAlong (backwards : List String) (t : FileTree) :
    t.Extends (createAlong backwards t).2 := by
  induction backwards generalizing t with
  | nil => exact .refl t
  | cons part above ih =>
    rw [createAlong]
    split_ifs
    · exact ih t
    · exact extends_ensureBelow ih t _

theorem extends_createDirectories (t : FileTree) (path : String) :
    t.Extends (t.createDirectories path).2 := by
  unfold createDirectories
  split_ifs
  · exact extends_ensureBelow (extends_createAlong _) t _
  · exact .refl t

/-! ### Writing files -/

/-- What is above a place is a directory. -/
def Reaches (t : FileTree) (place : List String) : Prop :=
  ∀ above, above <+: place → above ≠ place → t.entry? above = some .directory

theorem Reaches.of_prefix {above : List String} (h : t.Reaches place) (habove : above <+: place) :
    t.Reaches above := fun top htop hne =>
  h top (htop.trans habove) fun heq => hne (htop.eq_of_length_le (heq ▸ habove.length_le))

/-- A part leads from a directory to a directory above it or to a name in it. -/
theorem reaches_step (h : t.Reaches place) (hplace : t.entry? place = some .directory)
    (part : String) : t.Reaches (step place part) := by
  unfold step
  split_ifs
  · exact h
  · exact h.of_prefix (List.dropLast_prefix place)
  · exact fun above habove hne => absurd (List.prefix_nil.1 habove) hne
  · intro above habove hne
    rcases List.prefix_concat_iff.1 habove with heq | hinside
    · exact absurd heq hne
    · by_cases hsame : above = place
      · rw [hsame, hplace]
      · exact h above hinside hsame

theorem reaches_walk (hhome : t.home = []) {ps : List String} (h : t.walk ps = .ok place) :
    t.Reaches place := by
  have hstart : t.Reaches t.home := fun above habove hne =>
    absurd (List.prefix_nil.1 (hhome ▸ habove)) (hhome ▸ hne)
  unfold walk at h
  generalize t.home = start at h hstart
  induction ps generalizing start with
  | nil =>
    cases h
    exact hstart
  | cons part ps ih =>
    rw [List.foldlM_cons] at h
    obtain ⟨next, hnext, hrest⟩ := bind_eq_ok.1 h
    obtain ⟨entered, hentered, rfl⟩ := map_eq_ok.1 hnext
    obtain ⟨rfl, hdirectory⟩ := of_enter_eq_ok hentered
    exact ih _ hrest (reaches_step hstart hdirectory part)

/-- A part that is not idle leads from a directory to that name in it, or to a directory. -/
theorem step_cases (hreaches : t.Reaches place) (hplace : t.entry? place = some .directory)
    {part : String} (hidle : isIdle part = false) (hslash : '/' ∉ part.toList) :
    (step place part).getLast? = some part ∨ t.entry? (step place part) = some .directory := by
  have hidle' : ¬(part = "" ∨ part = ".") := by simpa [isIdle] using hidle
  unfold step
  rw [if_neg hidle']
  split_ifs with habove hroot
  · right
    by_cases hsame : place.dropLast = place
    · rwa [hsame]
    · exact hreaches _ (List.dropLast_prefix place) hsame
  · exact absurd (by rw [hroot]; decide) hslash
  · exact .inl List.getLast?_concat

/-- A file is put where the file name of its path leads, unless that is idle. -/
theorem getLast?_of_filePlace (hhome : t.home = []) {path : String}
    (h : t.filePlace path = .ok place) (hidle : isIdle (Path.fileName path) = false) :
    place.getLast? = some (Path.fileName path) := by
  obtain ⟨found, hfind, h⟩ := bind_eq_ok.1 h
  split_ifs at h with _ hdirectory
  obtain ⟨_, _, rfl⟩ := map_eq_ok.1 h
  unfold find at hfind
  split_ifs at hfind
  obtain ⟨front, hparts⟩ := List.getLast?_eq_some_iff.1 (getLast?_parts path)
  rw [hparts, walk, List.foldlM_append] at hfind
  obtain ⟨above, habove, hfind⟩ := bind_eq_ok.1 hfind
  rw [List.foldlM_cons] at hfind
  obtain ⟨next, hnext, hend⟩ := bind_eq_ok.1 hfind
  obtain ⟨entered, hentered, rfl⟩ := map_eq_ok.1 hnext
  obtain ⟨rfl, hthere⟩ := of_enter_eq_ok hentered
  obtain rfl : step above (Path.fileName path) = found := Except.ok.inj hend
  obtain ⟨_, _, hslash, _⟩ := Path.exists_directory path
  refine (step_cases (reaches_walk hhome habove) hthere hidle hslash).resolve_right fun hdir => ?_
  exact hdirectory (by rw [isDirectory, hdir]; rfl)

/-- Writing a file leaves what is called otherwise. -/
theorem entry?_of_writeText (hhome : t.home = []) {path text : String} {written : FileTree}
    (h : t.writeText path text = .ok written) (hidle : isIdle (Path.fileName path) = false)
    {other : List String} (hother : other.getLast? ≠ some (Path.fileName path)) :
    written.home = [] ∧ written.entry? other = t.entry? other := by
  obtain ⟨place, hplace, rfl⟩ := map_eq_ok.1 h
  have hlast := getLast?_of_filePlace hhome hplace hidle
  have hne : place ≠ [] := by
    rintro rfl
    cases hlast
  have hapart : other ≠ place := by
    rintro rfl
    exact hother hlast
  exact ⟨hhome, by rw [entry?_insert hne, if_neg hapart]⟩

end FileTree

end EntityWeaver
