import EntityWeaver.Catalog
import EntityWeaver.Proofs.Text.Visible
import Mathlib.Data.List.Infix

/-! Signatures are read back from their texts.

    A text spells a signature when, without the blanks around it, it is a name, an opening parenthesis,
    the first there is, and parameter types up to a closing one at the end. The types are told apart by
    the commas outside angle brackets:

        f(Map<K, V>, int)       Map<K, V> | int       brackets keep a comma
        f(K>, V)                K> | V                a closing bracket too many is no bracket
        f(Map<K, V)             Map<K, V              an open one keeps all that follows

    Where a text is cut depends on what shows of it, and blanks do not. So a signature that was read is
    written in a way that is read as the same signature, and so is one whose types have their brackets
    closed and their commas inside. -/

namespace EntityWeaver

namespace Signature

/-! ### Cutting parameters apart -/

/-- The depth of angle brackets behind a character. -/
def depthBehind (depth : Nat) (c : Char) : Nat :=
  if c = '<' then depth + 1 else if c = '>' then depth - 1 else depth

/-- The depth of angle brackets behind a text; none if a comma outside of them cuts it. -/
def depthAfter? (depth : Nat) : List Char → Option Nat
  | [] => some depth
  | c :: rest => if c = ',' ∧ depth = 0 then none else depthAfter? (depthBehind depth c) rest

theorem splitParams_cons (depth : Nat) (part : List Char) (c : Char) (rest : List Char) :
    splitParams depth part (c :: rest) =
      if c = ',' ∧ depth = 0 then part.reverse :: splitParams 0 [] rest
      else splitParams (depthBehind depth c) (c :: part) rest := by
  by_cases hopen : c = '<'
  · subst hopen
    rfl
  by_cases hclose : c = '>'
  · subst hclose
    rfl
  by_cases hcomma : c = ','
  · subst hcomma
    by_cases hdepth : depth = 0
    · simp [splitParams, hdepth]
    · simp [splitParams, hdepth, depthBehind]
  · simp [splitParams, hopen, hclose, hcomma, depthBehind]

theorem depthAfter?_append (depth : Nat) (s t : List Char) :
    depthAfter? depth (s ++ t) = (depthAfter? depth s).bind (depthAfter? · t) := by
  induction s generalizing depth with
  | nil => rfl
  | cons c rest ih =>
    rw [List.cons_append, depthAfter?, depthAfter?]
    split
    · rfl
    · exact ih _

/-- Blanks neither cut nor open nor close anything. -/
theorem depthAfter?_visible (depth : Nat) (s : List Char) :
    depthAfter? depth (Text.visible s) = depthAfter? depth s := by
  induction s generalizing depth with
  | nil => rfl
  | cons c rest ih =>
    by_cases hblank : Text.isBlank c = true
    · have hne : ∀ b, Text.isBlank b = false → c ≠ b := by
        rintro b hb rfl
        cases hb.symm.trans hblank
      have hdrop : Text.visible (c :: rest) = Text.visible rest := by simp [Text.visible, hblank]
      rw [hdrop, ih, depthAfter?, if_neg fun h => hne ',' (by decide) h.1, depthBehind,
        if_neg (hne '<' (by decide)), if_neg (hne '>' (by decide))]
    · have hkeep : Text.visible (c :: rest) = c :: Text.visible rest := by simp [Text.visible, hblank]
      rw [hkeep, depthAfter?, depthAfter?]
      split
      · rfl
      · exact ih _

theorem depthAfter?_congr {s t : List Char} (h : Text.visible s = Text.visible t) (depth : Nat) :
    depthAfter? depth s = depthAfter? depth t := by
  rw [← depthAfter?_visible, h, depthAfter?_visible]

/-- Up to a comma that cuts, everything goes into the present part. -/
theorem splitParams_append {depth depth' : Nat} {s : List Char}
    (h : depthAfter? depth s = some depth') (part rest : List Char) :
    splitParams depth part (s ++ rest) = splitParams depth' (s.reverse ++ part) rest := by
  induction s generalizing depth part with
  | nil =>
    obtain rfl := Option.some.inj h
    rfl
  | cons c s ih =>
    rw [depthAfter?] at h
    split at h
    · cases h
    · next hcut =>
      rw [List.cons_append, splitParams_cons, if_neg hcut, ih h]
      simp

/-- Parts that are cut apart by commas: each but the last closes its brackets. -/
inductive Separable : List (List Char) → Prop
  | nil : Separable []
  | last {part : List Char} (h : (depthAfter? 0 part).isSome = true) : Separable [part]
  | cons {part : List Char} {parts : List (List Char)} (h : depthAfter? 0 part = some 0)
      (hrest : Separable parts) : Separable (part :: parts)

/-- Some of the parts are cut apart as well. -/
theorem Separable.filter {parts : List (List Char)} (h : Separable parts) (p : List Char → Bool) :
    Separable (parts.filter p) := by
  induction h with
  | nil => exact .nil
  | @last part h =>
    cases hp : p part with
    | true => simpa [hp] using Separable.last h
    | false => simpa [hp] using Separable.nil
  | @cons part parts h _ ih =>
    cases hp : p part with
    | true => simpa [hp] using ih.cons h
    | false => simpa [hp] using ih

/-- So are parts that show the same. -/
theorem Separable.map {parts : List (List Char)} (h : Separable parts) {f : List Char → List Char}
    (hf : ∀ s, Text.visible (f s) = Text.visible s) : Separable (parts.map f) := by
  induction h with
  | nil => exact .nil
  | last h => exact .last (by rwa [depthAfter?_congr (hf _)])
  | cons h _ ih => exact .cons (by rwa [depthAfter?_congr (hf _)]) ih

/-- A parameter list is cut into parts that its commas cut apart. -/
theorem separable_splitParams {depth : Nat} {part : List Char}
    (h : depthAfter? 0 part.reverse = some depth) (rest : List Char) :
    Separable (splitParams depth part rest) := by
  induction rest generalizing depth part with
  | nil => exact .last (by rw [h]; rfl)
  | cons c rest ih =>
    rw [splitParams_cons]
    split
    · next hcut => exact .cons (hcut.2 ▸ h) (ih rfl)
    · next hcut =>
      refine ih ?_
      rw [List.reverse_cons, depthAfter?_append, h, Option.bind_some, depthAfter?, if_neg hcut,
        depthAfter?]

/-- Parts that are written one behind the other come out again, all but the first behind a space. -/
theorem splitParams_intercalate {part : List Char} {parts : List (List Char)}
    (h : Separable (part :: parts)) :
    splitParams 0 [] ([',', ' '].intercalate (part :: parts)) = part :: parts.map (' ' :: ·) := by
  induction parts generalizing part with
  | nil =>
    have hpart : (depthAfter? 0 part).isSome = true := by
      cases h with
      | last h => exact h
      | cons h _ =>
        rw [h]
        rfl
    obtain ⟨depth, hdepth⟩ := Option.isSome_iff_exists.1 hpart
    rw [List.intercalate_singleton, ← List.append_nil part, splitParams_append hdepth]
    simp [splitParams]
  | cons next rest ih =>
    cases h with
    | cons hpart hrest =>
      have hspaced : Separable ((' ' :: next) :: rest) := by
        have hsame : depthAfter? 0 (' ' :: next) = depthAfter? 0 next := rfl
        cases hrest with
        | last h => exact .last (hsame ▸ h)
        | cons h hrest => exact .cons (hsame ▸ h) hrest
      have hjoined : [',', ' '].intercalate (part :: next :: rest) =
          part ++ ',' :: [',', ' '].intercalate ((' ' :: next) :: rest) := by
        cases rest <;> simp [List.intercalate]
      rw [hjoined, splitParams_append hpart, splitParams_cons, if_pos ⟨rfl, rfl⟩, ih hspaced]
      simp

/-! ### Reading -/

/-- A parameter list gives the types of the parts of which something shows. -/
theorem map_normalType_paramsOf (inner : List Char) : (paramsOf inner).map normalType =
    ((splitParams 0 [] inner).filter fun part => Text.visible part ≠ []).map
      fun part => normalType (String.ofList part) := by
  have hkept : (fun part : List Char => decide (part ≠ [])) ∘ Text.trim =
      fun part => decide (Text.visible part ≠ []) := by
    funext part
    simp [Text.trim_eq_nil_iff]
  have htype : ∀ part : List Char, normalType (String.ofList (Text.trim part)) =
      normalType (String.ofList part) := fun part => normalType_congr (by simp)
  rw [paramsOf, List.filter_map, hkept, List.map_map, List.map_map]
  exact List.map_congr_left fun part _ => htype part

/-- A text is a name, the first parenthesis, and a list up to a closing parenthesis at its end. -/
structure Parenthesized (text name inner : List Char) : Prop where
  text_eq : text = name ++ '(' :: (inner ++ [')'])
  first : '(' ∉ name

/-- A text spells a signature if, trimmed, it is one word and parameter types in parentheses. -/
structure Spells (text : String) (s : Signature) (name inner : List Char) : Prop where
  parenthesized : Parenthesized (Text.trim text.toList) name inner
  name_ne : Text.trim name ≠ []
  word : ∀ c ∈ Text.trim name, Text.isBlank c = false
  signature_eq : s = ofTypes (String.ofList (Text.trim name)) (paramsOf inner)

section Cut

variable {text name inner : List Char}

theorem Parenthesized.ne_of_mem (h : Parenthesized text name inner) :
    ∀ c ∈ name, decide (c ≠ '(') = true := fun _ hc =>
  decide_eq_true fun heq => h.first (heq ▸ hc)

theorem Parenthesized.takeWhile_eq (h : Parenthesized text name inner) :
    text.takeWhile (· ≠ '(') = name := by
  rw [h.text_eq, List.takeWhile_append_of_pos h.ne_of_mem, List.takeWhile_cons_of_neg (by decide),
    List.append_nil]

theorem Parenthesized.dropWhile_eq (h : Parenthesized text name inner) :
    text.dropWhile (· ≠ '(') = '(' :: (inner ++ [')']) := by
  rw [h.text_eq, List.dropWhile_append_of_pos h.ne_of_mem, List.dropWhile_cons_of_neg (by decide)]

theorem Parenthesized.getLast?_eq (h : Parenthesized text name inner) :
    text.getLast? = some ')' := by
  rw [h.text_eq, ← List.cons_append, ← List.append_assoc, List.getLast?_concat]

/-- A text with an opening parenthesis that ends in a closing one has something between them, if only
    the empty list: the two are different characters, so they do not stand at one place. -/
theorem exists_parenthesized {c : Char} {rest : List Char}
    (hdrop : text.dropWhile (· ≠ '(') = c :: rest) (hlast : text.getLast? = some ')') :
    Parenthesized text (text.takeWhile (· ≠ '(')) rest.dropLast := by
  have hc : c = '(' := by
    have hhead := List.head?_dropWhile_not (· ≠ '(') text
    rw [hdrop] at hhead
    simpa using hhead
  subst hc
  have hsplit : text = text.takeWhile (· ≠ '(') ++ '(' :: rest := by
    rw [← hdrop, List.takeWhile_append_dropWhile]
  have hend : ('(' :: rest).getLast? = some ')' := by
    rw [hsplit, List.getLast?_append_of_ne_nil _ (List.cons_ne_nil _ _)] at hlast
    exact hlast
  have hrest : rest ≠ [] := by
    rintro rfl
    revert hend
    decide
  refine ⟨?_, fun h => ?_⟩
  · have hconcat : rest.dropLast ++ [')'] = rest := by
      rw [List.getLast?_cons_of_ne_nil hrest] at hend
      exact List.dropLast_append_getLast? _ hend
    rw [hconcat]
    exact hsplit
  · simpa using List.mem_takeWhile_imp h

end Cut

/-- A text with its parentheses is refused for nothing but its name. -/
theorem ofText?_of_parenthesized {text : String} {name inner : List Char}
    (h : Parenthesized (Text.trim text.toList) name inner) : ofText? text =
      if Text.trim name = [] ∨ (Text.trim name).any Text.isBlank = true then
        .error ⟨String.ofList (Text.trim text.toList)⟩
      else .ok (ofTypes (String.ofList (Text.trim name)) (paramsOf inner)) := by
  unfold ofText?
  simp only [h.dropWhile_eq, h.getLast?_eq, h.takeWhile_eq, List.dropLast_concat]

/-- A text is read as what it spells, and refused if it spells nothing. -/
theorem ofText?_cases (text : String) :
    (∃ s name inner, Spells text s name inner ∧ ofText? text = .ok s) ∨
      (¬∃ s name inner, Spells text s name inner) ∧
        ofText? text = .error ⟨String.ofList (Text.trim text.toList)⟩ := by
  by_cases hshape : ∃ name inner, Parenthesized (Text.trim text.toList) name inner
  · obtain ⟨name, inner, h⟩ := hshape
    rw [ofText?_of_parenthesized h]
    by_cases hname : Text.trim name = [] ∨ (Text.trim name).any Text.isBlank = true
    · refine .inr ⟨?_, if_pos hname⟩
      rintro ⟨s, name', inner', h'⟩
      obtain rfl : name' = name := h'.parenthesized.takeWhile_eq.symm.trans h.takeWhile_eq
      rcases hname with hname | hname
      · exact h'.name_ne hname
      · obtain ⟨c, hc, hblank⟩ := List.any_eq_true.1 hname
        cases (h'.word c hc).symm.trans hblank
    · rw [if_neg hname]
      rw [not_or, Bool.not_eq_true, List.any_eq_false] at hname
      exact .inl ⟨_, name, inner, ⟨h, hname.1, fun c hc => by simpa using hname.2 c hc, rfl⟩, rfl⟩
  · refine .inr ⟨fun ⟨s, name, inner, h⟩ => hshape ⟨name, inner, h.parenthesized⟩, ?_⟩
    unfold ofText?
    dsimp only
    split
    · next hdrop hlast => exact absurd ⟨_, _, exists_parenthesized hdrop hlast⟩ hshape
    · rfl

theorem ofText?_eq_ok_iff {text : String} {s : Signature} :
    ofText? text = .ok s ↔ ∃ name inner, Spells text s name inner := by
  rcases ofText?_cases text with ⟨s', name, inner, h, hok⟩ | ⟨hnone, herror⟩
  · rw [hok]
    constructor
    · intro heq
      obtain rfl := Except.ok.inj heq
      exact ⟨name, inner, h⟩
    · rintro ⟨name', inner', h'⟩
      obtain rfl : name = name' :=
        h.parenthesized.takeWhile_eq.symm.trans h'.parenthesized.takeWhile_eq
      have hrest := h.parenthesized.dropWhile_eq.symm.trans h'.parenthesized.dropWhile_eq
      obtain rfl : inner = inner' := List.append_cancel_right (List.cons.inj hrest).2
      rw [h.signature_eq, h'.signature_eq]
  · rw [herror]
    constructor
    · intro h
      cases h
    · rintro ⟨name, inner, h⟩
      exact absurd ⟨s, name, inner, h⟩ hnone

/-! ### Reading back -/

/-- A signature that is read back from its text. -/
structure Legible (s : Signature) : Prop where
  name_ne : s.name ≠ ""
  name : ∀ c ∈ s.name.toList, c ≠ '(' ∧ Text.isBlank c = false
  normal : ∀ p ∈ s.params, normalType p = p
  visible : ∀ p ∈ s.params, Text.visible p.toList ≠ []
  separable : Separable (s.params.map String.toList)

/-- The parameters of a legible signature are those that are written. -/
theorem Legible.params_eq {s : Signature} (h : s.Legible) :
    (paramsOf (", ".intercalate s.params).toList).map normalType = s.params := by
  obtain ⟨name, params⟩ := s
  obtain ⟨-, -, hnormal, hvisible, hseparable⟩ := h
  dsimp only at *
  rw [map_normalType_paramsOf, String.toList_intercalate]
  cases params with
  | nil => rfl
  | cons p rest =>
    have hspace : ∀ part : List Char, Text.visible (' ' :: part) = Text.visible part := fun part => rfl
    have hkept : ∀ part ∈ p.toList :: (rest.map String.toList).map (' ' :: ·),
        decide (Text.visible part ≠ []) = true := by
      intro part hpart
      refine decide_eq_true ?_
      rcases List.mem_cons.1 hpart with rfl | hpart
      · exact hvisible p List.mem_cons_self
      · rw [List.map_map] at hpart
        obtain ⟨q, hq, rfl⟩ := List.mem_map.1 hpart
        rw [Function.comp_apply, hspace]
        exact hvisible q (List.mem_cons_of_mem _ hq)
    have hread : ∀ q ∈ rest, normalType (String.ofList (' ' :: q.toList)) = q := by
      intro q hq
      have hvisible : Text.visible (String.ofList (' ' :: q.toList)).toList = Text.visible q.toList := by
        rw [String.toList_ofList, hspace]
      rw [normalType_congr hvisible]
      exact hnormal q (List.mem_cons_of_mem _ hq)
    have hsplit := splitParams_intercalate hseparable
    rw [List.map_cons, show ", ".toList = [',', ' '] from rfl, hsplit, List.filter_eq_self.2 hkept,
      List.map_cons, String.ofList_toList, hnormal p List.mem_cons_self, List.map_map, List.map_map]
    exact congrArg (p :: ·) ((List.map_congr_left fun q hq => hread q hq).trans (List.map_id _))

/-- A legible signature is read back. -/
theorem Legible.ofText?_text {s : Signature} (h : s.Legible) : ofText? s.text = .ok s := by
  have hname : Text.trim s.name.toList = s.name.toList := by
    refine Text.trim_eq_self ((Option.all_eq_true _ _).2 fun c hc => ?_)
      ((Option.all_eq_true _ _).2 fun c hc => ?_)
    · simpa using (h.name c (List.mem_of_head? hc)).2
    · simpa using (h.name c (List.mem_of_getLast? hc)).2
  have htext : s.text.toList =
      s.name.toList ++ '(' :: ((", ".intercalate s.params).toList ++ [')']) := by
    rw [text, String.toList_append, String.toList_append, String.toList_append, List.append_assoc,
      List.append_assoc]
    rfl
  obtain ⟨c, rest, hfirst⟩ := List.exists_cons_of_ne_nil (mt String.toList_eq_nil_iff.1 h.name_ne)
  have htrim : Text.trim s.text.toList = s.text.toList := by
    refine Text.trim_eq_self ?_ ?_
    · have hc := (h.name c (hfirst ▸ List.mem_cons_self)).2
      rw [htext, hfirst]
      simpa using hc
    · rw [htext, ← List.cons_append, ← List.append_assoc, List.getLast?_concat]
      rfl
  refine ofText?_eq_ok_iff.2 ⟨s.name.toList, (", ".intercalate s.params).toList, ⟨?_, ?_⟩, ?_, ?_, ?_⟩
  · rw [htrim, htext]
  · exact fun hmem => (h.name '(' hmem).1 rfl
  · rw [hname, hfirst]
    exact List.cons_ne_nil c rest
  · rw [hname]
    exact fun c hc => (h.name c hc).2
  · rw [hname, String.ofList_toList, ofTypes, h.params_eq]

/-- A signature that a text spells is legible. -/
theorem Spells.legible {text : String} {s : Signature} {name inner : List Char}
    (h : Spells text s name inner) : s.Legible := by
  have hname : ∀ c ∈ Text.trim name, c ∈ name := by
    obtain ⟨front, back, hsplit, -, -⟩ := Text.exists_trim name
    intro c hc
    rw [hsplit]
    exact List.mem_append_left _ (List.mem_append_right _ hc)
  have hparams : s.params =
      ((splitParams 0 [] inner).filter fun part => Text.visible part ≠ []).map
        fun part => normalType (String.ofList part) := by
    rw [h.signature_eq, ofTypes, map_normalType_paramsOf]
  have hs := h.signature_eq
  refine ⟨?_, ?_, ?_, ?_, ?_⟩
  · rw [hs]
    exact fun hempty => h.name_ne (by simpa [ofTypes] using hempty)
  · rw [hs, ofTypes, String.toList_ofList]
    exact fun c hc => ⟨fun heq => h.parenthesized.first (heq ▸ hname c hc), h.word c hc⟩
  · rw [hparams]
    intro p hp
    obtain ⟨part, -, rfl⟩ := List.mem_map.1 hp
    exact normalType_normalType _
  · rw [hparams]
    intro p hp
    obtain ⟨part, hpart, rfl⟩ := List.mem_map.1 hp
    rw [visible_normalType, String.toList_ofList]
    exact of_decide_eq_true (List.mem_filter.1 hpart).2
  · rw [hparams, List.map_map]
    exact ((separable_splitParams rfl inner).filter _).map fun part => by simp

/-- A type as authors write it: something shows, brackets are opened before they are closed and all
    closed in the end, and commas stand inside of them. -/
structure Bracketed (type : List Char) : Prop where
  shows : ∃ c ∈ type, Text.isBlank c = false
  opened : ∀ front, front <+: type → front.count '>' ≤ front.count '<'
  closed : type.count '>' = type.count '<'
  inside : ∀ front, front ++ [','] <+: type → front.count '>' < front.count '<'

/-- A character that closes a bracket only if one is open changes the depth by what it is. -/
theorem depthBehind_add_count {depth : Nat} {c : Char} (h : c = '>' → 0 < depth) :
    depthBehind depth c + [c].count '>' = depth + [c].count '<' := by
  unfold depthBehind
  by_cases hopen : c = '<'
  · subst hopen
    simp
  by_cases hclose : c = '>'
  · subst hclose
    have hdepth := h rfl
    simp
    omega
  · simp [hopen, hclose]

/-- Where no bracket is closed too often and no comma stands outside, the depth is the number of open
    brackets. -/
theorem depthAfter?_of_count {depth : Nat} {s : List Char}
    (hopened : ∀ front, front <+: s → front.count '>' ≤ depth + front.count '<')
    (hinside : ∀ front, front ++ [','] <+: s → front.count '>' < depth + front.count '<') :
    depthAfter? depth s = some (depth + s.count '<' - s.count '>') := by
  induction s generalizing depth with
  | nil => rfl
  | cons c rest ih =>
    have hcount : ∀ (b : Char) (t : List Char), (c :: t).count b = [c].count b + t.count b := by
      intro b t
      rw [← List.singleton_append, List.count_append]
    have hstep : depthBehind depth c + [c].count '>' = depth + [c].count '<' := by
      refine depthBehind_add_count fun hc => ?_
      subst hc
      have hfirst := hopened ['>'] ⟨rest, rfl⟩
      simp at hfirst
      omega
    have hcut : ¬(c = ',' ∧ depth = 0) := by
      rintro ⟨rfl, rfl⟩
      simpa using hinside [] ⟨rest, rfl⟩
    rw [depthAfter?, if_neg hcut, ih, hcount '<' rest, hcount '>' rest]
    · congr 1
      omega
    · intro front hfront
      have hlonger := hopened (c :: front) ((List.prefix_cons_inj c).2 hfront)
      rw [hcount '<' front, hcount '>' front] at hlonger
      omega
    · intro front hfront
      have hlonger := hinside (c :: front) ((List.prefix_cons_inj c).2 hfront)
      rw [hcount '<' front, hcount '>' front] at hlonger
      omega

theorem Bracketed.depthAfter?_eq {type : List Char} (h : Bracketed type) :
    depthAfter? 0 type = some 0 := by
  rw [depthAfter?_of_count (by simpa using h.opened) (by simpa using h.inside), h.closed]
  simp

/-- A name in one word and types as authors write them make a legible signature. -/
theorem legible_ofTypes {name : String} {types : List String} (hne : name ≠ "")
    (hname : ∀ c ∈ name.toList, c ≠ '(' ∧ Text.isBlank c = false)
    (htypes : ∀ type ∈ types, Bracketed type.toList) : (ofTypes name types).Legible where
  name_ne := hne
  name := hname
  normal p hp := by
    obtain ⟨type, -, rfl⟩ := List.mem_map.1 hp
    exact normalType_normalType type
  visible p hp := by
    obtain ⟨type, htype, rfl⟩ := List.mem_map.1 hp
    rw [visible_normalType]
    exact Text.visible_ne_nil_iff.2 (htypes type htype).shows
  separable := by
    induction types with
    | nil => exact .nil
    | cons type rest ih =>
      have hdepth : depthAfter? 0 (normalType type).toList = some 0 :=
        (depthAfter?_congr (visible_normalType type) 0).trans
          (htypes type List.mem_cons_self).depthAfter?_eq
      exact .cons hdepth (ih fun t ht => htypes t (List.mem_cons_of_mem _ ht))

end Signature

/-! ### Aiming at signatures -/

/-- A directive splices its method into the target: the method has the shape that this takes. -/
inductive Directive.Aims (m : MethodDecl) (target : String) : Directive → Prop
  | insert (block : Option String) (after : Bool) (hparams : m.params = []) :
    Aims m target (.insert target block after)
  | wrap (block : Option String) (hparams : m.params = []) (hreturn : m.returnType = "boolean") :
    Aims m target (.wrap target block)

/-- Names of components do not matter to where a directive aims. -/
theorem Directive.Aims.canonical {m : MethodDecl} {target : String} {d : Directive}
    (h : d.Aims m target) (s : Snapshot) :
    (s.canonicalDirective d).Aims (s.canonicalMethod m) target := by
  cases h with
  | insert block after hparams => exact .insert _ after hparams
  | wrap block hparams hreturn => exact .wrap _ hparams hreturn

/-- A directive that aims at a signature as it is written asks for one splice, into that signature. -/
theorem Splice.exists_ofDirective? {s : Signature} (hs : s.Legible) (c : ComponentDecl)
    {m : MethodDecl} {d : Directive} (h : d.Aims m s.text) : ∃ splice,
      splice.component = c.name ∧ splice.method = m.name ∧
        ofDirective? c m d = some (.ok (s, splice)) := by
  have haim : ∀ block kind, aim c m s.text block kind =
      .ok (s, ⟨c.name, m.name, block, m.priority, kind⟩) := by
    intro block kind
    rw [aim, hs.ofText?_text]
  cases h with
  | insert block after hparams =>
    exact ⟨_, rfl, rfl, by rw [ofDirective?, if_neg (not_not.2 hparams), haim]⟩
  | wrap block hparams hreturn =>
    exact ⟨_, rfl, rfl, by rw [ofDirective?, if_neg (by simp [hparams, hreturn]), haim]⟩

/-- What a directive asks for is in the index. -/
theorem Catalog.mem_aimedAt_ofSnapshot {s : Snapshot} {c : ComponentDecl} (hc : c ∈ s.components)
    {m : MethodDecl} (hm : m ∈ c.methods) {d : Directive} (hd : d ∈ m.directives)
    {target : Signature} {splice : Splice}
    (h : Splice.ofDirective? (s.canonicalComponent c) (s.canonicalMethod m) (s.canonicalDirective d) =
      some (.ok (target, splice))) : splice ∈ (ofSnapshot s).splices.aimedAt target := by
  have hrequest : (.ok (target, splice), (s.canonicalMethod m).anchor) ∈
      (s.components.map s.canonicalComponent).flatMap Splice.requests := by
    refine List.mem_flatMap.2 ⟨_, List.mem_map_of_mem hc, ?_⟩
    refine List.mem_flatMap.2 ⟨_, List.mem_map_of_mem hm, ?_⟩
    exact List.mem_map_of_mem (List.mem_filterMap.2 ⟨_, List.mem_map_of_mem hd, h⟩)
  have hindexed : (target, splice) ∈ (ofSnapshot s).splices :=
    List.mem_filterMap.2 ⟨_, hrequest, rfl⟩
  exact List.mem_map.2 ⟨_, List.mem_filter.2 ⟨hindexed, beq_self_eq_true target⟩, rfl⟩

namespace Signature

/-- Texts and signatures correspond. Every text is read as the signature that it spells or else
    refused. What was read is read back from its own text, and so is every signature with a name in
    one word and types that close their brackets and keep their commas inside. Hence a directive that
    aims at a method by its printed signature is indexed under the signature of that method. -/
theorem text_round_trip :
    (∀ text : String,
      (∃ s name inner, Spells text s name inner ∧ ofText? text = .ok s) ∨
        (¬∃ s name inner, Spells text s name inner) ∧
          ofText? text = .error ⟨String.ofList (Text.trim text.toList)⟩) ∧
    (∀ (text : String) (s : Signature), ofText? text = .ok s → ofText? s.text = .ok s) ∧
    (∀ (name : String) (types : List String), name ≠ "" →
      (∀ c ∈ name.toList, c ≠ '(' ∧ Text.isBlank c = false) →
      (∀ type ∈ types, Bracketed type.toList) →
        ofText? (ofTypes name types).text = .ok (ofTypes name types)) ∧
    ∀ target : MethodDecl, target.name ≠ "" →
      (∀ c ∈ target.name.toList, c ≠ '(' ∧ Text.isBlank c = false) →
      (∀ p ∈ target.params, Bracketed p.type.toList) →
      ∀ (s : Snapshot) (c : ComponentDecl) (m : MethodDecl) (d : Directive), c ∈ s.components →
        m ∈ c.methods → d ∈ m.directives → d.Aims m target.signature.text →
        ∃ splice, splice.component = c.name ∧ splice.method = m.name ∧
          Splice.ofDirective? (s.canonicalComponent c) (s.canonicalMethod m)
            (s.canonicalDirective d) = some (.ok (target.signature, splice)) ∧
          splice ∈ (Catalog.ofSnapshot s).splices.aimedAt target.signature := by
  refine ⟨ofText?_cases, ?_, ?_, ?_⟩
  · intro text s h
    obtain ⟨name, inner, hspells⟩ := ofText?_eq_ok_iff.1 h
    exact hspells.legible.ofText?_text
  · intro name types hne hname htypes
    exact (legible_ofTypes hne hname htypes).ofText?_text
  · intro target hne hname htypes s c m d hc hm hd haims
    have hlegible : target.signature.Legible :=
      legible_ofTypes hne hname (List.forall_mem_map.2 htypes)
    obtain ⟨splice, hcomponent, hmethod, hsplice⟩ := Splice.exists_ofDirective? hlegible
      (s.canonicalComponent c) (haims.canonical s)
    exact ⟨splice, hcomponent, hmethod, hsplice, Catalog.mem_aimedAt_ofSnapshot hc hm hd hsplice⟩

/-! ### A cargo hold -/

/-- A method with a type in brackets, spelled without spaces. -/
def load : MethodDecl := { name := "load", params := [⟨"items", "ObjectMap<Item,int>"⟩] }

/-- A method that is to run ahead of it. -/
def check : MethodDecl :=
  { name := "check", body := some "full = false;"
    directives := [.insert "load(ObjectMap<Item, int>)" none false] }

def hold : ComponentDecl := { name := "HoldComp", methods := [load, check] }

theorem bracketed_items : Bracketed "ObjectMap<Item,int>".toList where
  shows := ⟨'O', by decide, by decide⟩
  opened front h := by
    have hall : ∀ front ∈ "ObjectMap<Item,int>".toList.inits, front.count '>' ≤ front.count '<' := by
      decide
    exact hall front ((List.mem_inits _ _).2 h)
  closed := by decide
  inside front h := by
    have hall : ∀ front ∈ "ObjectMap<Item,int>".toList.inits, front.getLast? = some ',' →
        front.dropLast.count '>' < front.dropLast.count '<' := by
      decide
    simpa using hall _ ((List.mem_inits _ _).2 h) (List.getLast?_concat ..)

theorem spells_load : Spells " load( ObjectMap<Item ,int>,, ) " load.signature "load".toList
    " ObjectMap<Item ,int>,, ".toList where
  parenthesized := ⟨by decide, by decide⟩
  name_ne := by decide
  word := by
    have htrim : Text.trim "load".toList = ['l', 'o', 'a', 'd'] := by decide
    rw [htrim]
    simp [Text.isBlank]
  signature_eq := by
    have hparams : paramsOf " ObjectMap<Item ,int>,, ".toList = ["ObjectMap<Item ,int>"] := by decide
    have htype : normalType "ObjectMap<Item,int>" = normalType "ObjectMap<Item ,int>" :=
      normalType_congr (by decide)
    rw [hparams]
    simp only [load, MethodDecl.signature, ofTypes, List.map_cons, List.map_nil, htype]
    rfl

/-- The load of a hold, read from a text with blanks and empty parts, read back, and aimed at. -/
theorem text_round_trip_load :
    ofText? " load( ObjectMap<Item ,int>,, ) " = .ok load.signature ∧
    ofText? load.signature.text = .ok load.signature ∧
    ofText? (ofTypes "load" ["ObjectMap<Item,int>"]).text =
      .ok (ofTypes "load" ["ObjectMap<Item,int>"]) ∧
    ∃ splice ∈ (Catalog.ofSnapshot { components := [hold] }).splices.aimedAt load.signature,
      splice.method = "check" := by
  have hread : ofText? " load( ObjectMap<Item ,int>,, ) " = .ok load.signature :=
    ofText?_eq_ok_iff.2 ⟨_, _, spells_load⟩
  have hname : ∀ c ∈ "load".toList, c ≠ '(' ∧ Text.isBlank c = false := by simp [Text.isBlank]
  obtain ⟨-, hback, htypes, haimed⟩ := text_round_trip
  refine ⟨hread, hback _ _ hread, htypes "load" _ (by decide) hname
    (List.forall_mem_singleton.2 bracketed_items), ?_⟩
  obtain ⟨splice, -, hmethod, -, hmem⟩ := haimed load (by decide) hname
    (List.forall_mem_singleton.2 bracketed_items) { components := [hold] } hold check _
    List.mem_cons_self (List.mem_cons_of_mem _ List.mem_cons_self) List.mem_cons_self
    (.insert none false rfl)
  exact ⟨splice, hmem, hmethod⟩

end Signature

end EntityWeaver
