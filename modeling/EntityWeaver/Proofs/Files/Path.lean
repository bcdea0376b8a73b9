import EntityWeaver.Files.Basic
import Mathlib.Data.List.Basic

/-! Names as parts of paths.

    A name without slashes that is none of the points is an ordinary part of a path. It can be put
    behind a directory with a slash, and what comes out can have a name behind it again. -/

namespace EntityWeaver

namespace Path

/-- A text is a single ordinary part of paths, with at most so many bytes. -/
structure IsName (longest : Nat) (name : String) : Prop where
  ne_empty : name ≠ ""
  ne_here : name ≠ "."
  ne_above : name ≠ ".."
  slash : '/' ∉ name.toList
  null : '\x00' ∉ name.toList
  short : name.utf8ByteSize ≤ longest

/-- A path that a name is put behind with a slash, with at most so many bytes. -/
structure IsDirectoryPath (longest : Nat) (path : String) : Prop where
  ne_empty : path ≠ ""
  slash : path.toList.getLast? ≠ some '/'
  null : '\x00' ∉ path.toList
  short : path.utf8ByteSize ≤ longest

variable {longest room : Nat} {path name : String}

theorem IsName.join_eq (hpath : IsDirectoryPath room path) (hname : IsName longest name) :
    join path name = path ++ "/" ++ name := by
  have hfirst : name.toList.head? ≠ some '/' := fun h => hname.slash (List.mem_of_head? h)
  rw [join, if_neg (not_or_intro hpath.ne_empty hfirst), if_neg hpath.slash]

theorem IsName.toList_join (hpath : IsDirectoryPath room path) (hname : IsName longest name) :
    (join path name).toList = path.toList ++ '/' :: name.toList := by
  have hslash : "/".toList = ['/'] := rfl
  rw [hname.join_eq hpath, String.toList_append, String.toList_append, hslash, List.append_assoc,
    List.singleton_append]

/-- A name behind a directory is a path that other names can be put behind. -/
theorem IsDirectoryPath.join (hpath : IsDirectoryPath room path) (hname : IsName longest name) :
    IsDirectoryPath (room + 1 + longest) (join path name) := by
  have hlist := hname.toList_join hpath
  refine ⟨fun h => ?_, fun h => ?_, fun h => ?_, ?_⟩
  · rw [h] at hlist
    simp at hlist
  · rw [hlist, List.getLast?_append_of_ne_nil _ (by simp),
      List.getLast?_cons_of_ne_nil (mt String.toList_eq_nil_iff.1 hname.ne_empty)] at h
    exact hname.slash (List.mem_of_getLast? h)
  · rw [hlist, List.mem_append, List.mem_cons] at h
    rcases h with h | h | h
    · exact hpath.null h
    · exact absurd h (by decide)
    · exact hname.null h
  · have hslash : "/".utf8ByteSize = 1 := rfl
    have hshort := hname.short
    have hroom := hpath.short
    rw [hname.join_eq hpath, String.utf8ByteSize_append, String.utf8ByteSize_append, hslash]
    omega

/-- A name with an extension is cut at the point between them. -/
theorem splitExtension_append {stem extension : String} (hstem : stem ≠ "")
    (hpoint : '.' ∉ extension.toList) :
    splitExtension (stem ++ "." ++ extension) = (stem, some extension) := by
  have hlist : (stem ++ "." ++ extension).toList.reverse =
      extension.toList.reverse ++ '.' :: stem.toList.reverse := by
    rw [String.toList_append, String.toList_append]
    simp
  have hall : ∀ c ∈ extension.toList.reverse, decide (c ≠ '.') = true := by
    intro c hc
    exact decide_eq_true fun heq => hpoint (heq ▸ List.mem_reverse.1 hc)
  obtain ⟨c, rest, hrest⟩ := List.exists_cons_of_ne_nil
    (List.reverse_ne_nil_iff.2 (mt String.toList_eq_nil_iff.1 hstem))
  have hback : String.ofList (c :: rest).reverse = stem := by
    rw [← hrest, List.reverse_reverse, String.ofList_toList]
  rw [splitExtension, hlist, List.dropWhile_append_of_pos hall, List.takeWhile_append_of_pos hall,
    hrest, List.dropWhile_cons_of_neg (by decide), List.takeWhile_cons_of_neg (by decide)]
  simp only [hback, List.append_nil, List.reverse_reverse, String.ofList_toList]

end Path

end EntityWeaver
