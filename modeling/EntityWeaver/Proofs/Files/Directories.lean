import EntityWeaver.Proofs.Files.Path

/-! What a file system shows of the directories below a root.

    From outside, directories with files in them are texts under two names. A file system serves a
    root if its operations read and change them as their names say, and none of them fails:

        is there a directory, list its files, read one    leave them
        create a directory                                 is one more, empty if it is new
        write a file                                       has its text under its name

    Nothing else is fixed. Files are listed in any order, and what else a file system keeps may change
    with every operation, a reading one as well. -/

namespace EntityWeaver

/-- Directories by name, each with the texts of its files by name. -/
abbrev Directories := String → Option (String → Option String)

namespace Directories

/-- No directories. -/
def empty : Directories := fun _ => none

/-- The text of a file in a directory. -/
def text? (c : Directories) (name file : String) : Option String :=
  (c name).bind fun files => files file

/-- The directories with one that is there or new. -/
def make (c : Directories) (name : String) : Directories := fun other =>
  if other = name then some (c.text? name) else c other

/-- The directories with a file written into one of them. -/
def write (c : Directories) (name file text : String) : Directories := fun other =>
  if other = name then
    some fun otherFile => if otherFile = file then some text else c.text? name otherFile
  else c other

variable (c : Directories) {name : String}

theorem isSome_make (name : String) : (c.make name name).isSome := by
  rw [make, if_pos rfl]
  rfl

theorem make_eq (h : (c name).isSome) : c.make name = c := by
  obtain ⟨files, hfiles⟩ := Option.isSome_iff_exists.1 h
  funext other
  by_cases hother : other = name
  · subst hother
    rw [make, if_pos rfl, hfiles]
    exact congrArg some (funext fun file => by rw [text?, hfiles, Option.bind_some])
  · rw [make, if_neg hother]

@[simp] theorem text?_make (name : String) : (c.make name).text? = c.text? := by
  funext other otherFile
  by_cases h : other = name
  · subst h
    simp [text?, make]
  · simp [text?, make, h]

theorem text?_write (name file text other otherFile : String) :
    (c.write name file text).text? other otherFile =
      if other = name ∧ otherFile = file then some text else c.text? other otherFile := by
  by_cases h : other = name
  · subst h
    by_cases hfile : otherFile = file <;> simp [text?, write, hfile]
  · simp [text?, write, h]

end Directories

/-- From any state that shows one thing, a computation answers as said and ends in a state that shows
    another. -/
def Yields {σ γ α : Type} (shows : σ → γ → Prop) (x : StateM σ α) (c c' : γ) (P : α → Prop) : Prop :=
  ∀ s, shows s c → P (x.run s).1 ∧ shows (x.run s).2 c'

namespace Yields

variable {σ γ α β : Type} {shows : σ → γ → Prop} {x : StateM σ α} {f : α → StateM σ β}
  {c c' c'' : γ} {P : α → Prop} {Q : β → Prop}

theorem pure {a : α} (h : P a) : Yields shows (pure a) c c P := fun _ hs => ⟨h, hs⟩

theorem bind (hx : Yields shows x c c' P) (hf : ∀ a, P a → Yields shows (f a) c' c'' Q) :
    Yields shows (x >>= f) c c'' Q := fun s hs =>
  have ⟨ha, hs'⟩ := hx s hs
  hf _ ha _ hs'

end Yields

open EntityWeaver.Path (IsName)

/-- A file system serves the directories below a root, for names of at most so many bytes. -/
structure FileSystem.Serves {σ : Type} (fs : FileSystem (StateM σ)) (root : String) (longest : Nat)
    (shows : σ → Directories → Prop) : Prop where
  isDirectory {c : Directories} {name : String} (hname : IsName longest name) :
    Yields shows (fs.isDirectory (Path.join root name)) c c (· = (c name).isSome)
  list {c : Directories} {name : String} (hname : IsName longest name) (hthere : (c name).isSome) :
    Yields shows (fs.list (Path.join root name)) c c fun answer =>
      ∃ files, answer = .ok files ∧ files.Nodup ∧ ∀ file, file ∈ files ↔ (c.text? name file).isSome
  readText {c : Directories} {name file text : String} (hname : IsName longest name)
    (hfile : IsName longest file) (hthere : c.text? name file = some text) :
    Yields shows (fs.readText (Path.join (Path.join root name) file)) c c (· = .ok text)
  createDirectories {c : Directories} {name : String} (hname : IsName longest name) :
    Yields shows (fs.createDirectories (Path.join root name)) c (c.make name) (· = .ok ())
  writeText {c : Directories} {name file : String} (text : String) (hname : IsName longest name)
    (hfile : IsName longest file) (hthere : (c name).isSome) :
    Yields shows (fs.writeText (Path.join (Path.join root name) file) text) c
      (c.write name file text) (· = .ok ())

end EntityWeaver
