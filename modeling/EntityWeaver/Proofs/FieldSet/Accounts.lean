import EntityWeaver.Proofs.FieldSet
import EntityWeaver.Proofs.Sorting

/-! The accounts of merging: where every field of the components went.

    Merging goes through the fields in order, and each is dealt with in one of three ways:

        its name is taken                        reported as a duplicate; the set stays as it is
        interpolated in a synchronized entity,   reported as unfit; the set gains it
          but no `float`
        any other                                the set gains it, with shadows if it is interpolated

    So after any number of fields the set has the first field of each name, the duplicates make up for the
    others, and the reports of unfit fields are those of the unfit fields of the set, one for each. -/

namespace EntityWeaver

namespace Diagnostic

/-- The message starts with these words. -/
def opensWith (words : String) (d : Diagnostic) : Bool := words.toList.isPrefixOf d.message.toList

/-- Reports a field whose name is taken. -/
def isDuplicate (d : Diagnostic) : Bool := d.opensWith "duplicate field name "

/-- Reports an interpolated field that is no `float`. -/
def isUnfit (d : Diagnostic) : Bool := d.opensWith "sync field "

variable {d : Diagnostic} {words rest : String}

theorem opensWith_of_message (h : d.message = words ++ rest) : d.opensWith words = true := by
  rw [opensWith, h, String.toList_append]
  exact List.isPrefixOf_iff_prefix.2 (List.prefix_append _ _)

/-- A message that starts with one character does not start with words that start with another. -/
theorem not_opensWith_of_head? {other : String} {a b : Char} (h : d.message = words ++ rest)
    (hwords : words.toList.head? = some a) (hother : other.toList.head? = some b) (hne : a ≠ b) :
    d.opensWith other = false := by
  rw [opensWith, h, String.toList_append, Bool.eq_false_iff]
  intro hprefix
  obtain ⟨more, hmore⟩ := List.isPrefixOf_iff_prefix.1 hprefix
  have hhead := congrArg List.head? hmore
  rw [List.head?_append, List.head?_append, hwords, hother] at hhead
  exact hne (Option.some.inj hhead).symm

end Diagnostic

namespace FieldSet

variable {scope : Scope} {s : FieldSet} {seen : List (String × FieldDecl)} {owner : String}
  {f : FieldDecl} {state : FieldSet × List Diagnostic}

/-! ### Reports -/

open AuthoringError in
theorem message_duplicateReport (scope : Scope) (first owner : String) (f : FieldDecl) :
    (duplicateReport scope first owner f).message = "duplicate field name " ++ (quoted f.name ++
      " in " ++ quoted scope.entity ++ " (from " ++ quoted first ++ " and " ++ quoted owner ++ ")") := by
  show "duplicate field name " ++ quoted f.name ++ " in " ++ quoted scope.entity ++ " (from " ++
    quoted first ++ " and " ++ quoted owner ++ ")" = _
  simp only [String.append_assoc]

open AuthoringError in
theorem message_unfitReport (scope : Scope) (f : FieldDecl) :
    (unfitReport scope f).message = "sync field " ++ (quoted f.name ++ " in " ++ scope.entity ++
      " must be float, found " ++ quoted f.type) := by
  show "sync field " ++ quoted f.name ++ " in " ++ scope.entity ++ " must be float, found " ++
    quoted f.type = _
  simp only [String.append_assoc]

@[simp] theorem isDuplicate_duplicateReport (first : String) :
    (duplicateReport scope first owner f).isDuplicate = true :=
  Diagnostic.opensWith_of_message (message_duplicateReport scope first owner f)

@[simp] theorem isUnfit_duplicateReport (first : String) :
    (duplicateReport scope first owner f).isUnfit = false :=
  Diagnostic.not_opensWith_of_head? (message_duplicateReport scope first owner f) (a := 'd')
    (b := 's') rfl rfl (by decide)

@[simp] theorem isUnfit_unfitReport : (unfitReport scope f).isUnfit = true :=
  Diagnostic.opensWith_of_message (message_unfitReport scope f)

@[simp] theorem isDuplicate_unfitReport : (unfitReport scope f).isDuplicate = false :=
  Diagnostic.not_opensWith_of_head? (message_unfitReport scope f) (a := 's') (b := 'd') rfl rfl
    (by decide)

/-! ### All fields -/

/-- Of fields with owners, the first of each name. -/
def firsts (fs : List (String × FieldDecl)) : List (String × FieldDecl) :=
  fs.eraseDupsBy fun f g => f.2.name == g.2.name

theorem firsts_cons (f : String × FieldDecl) (fs : List (String × FieldDecl)) :
    firsts (f :: fs) = f :: firsts (fs.filter fun g => g.2.name ≠ f.2.name) := by
  rw [firsts, List.eraseDupsBy_cons, firsts]
  simp [beq_eq_false_iff_ne]

/-- One more field is the first of its name, unless there is one. -/
theorem firsts_concat : ∀ (fs : List (String × FieldDecl)) (f : String × FieldDecl),
    firsts (fs ++ [f]) =
      if f.2.name ∈ (firsts fs).map (·.2.name) then firsts fs else firsts fs ++ [f]
  | [], f => by simp [firsts, List.eraseDupsBy_cons]
  | g :: rest, f => by
    rw [List.cons_append, firsts_cons, firsts_cons, List.filter_append, List.map_cons]
    by_cases hname : f.2.name = g.2.name
    · rw [if_pos (hname ▸ List.mem_cons_self), List.filter_cons_of_neg (by simpa using hname),
        List.filter_nil, List.append_nil]
    · rw [List.filter_cons_of_pos (by simpa using hname), List.filter_nil, firsts_concat]
      split
      · next hmem => rw [if_pos (List.mem_cons_of_mem _ hmem)]
      · next hmem =>
        rw [if_neg fun h => (List.mem_cons.1 h).elim hname hmem, List.cons_append]
termination_by fs => fs.length
decreasing_by exact Nat.lt_succ_of_le (List.length_filter_le _ _)

/-- What the set and the reports say of the fields seen so far. -/
structure Accounts (scope : Scope) (seen : List (String × FieldDecl))
    (state : FieldSet × List Diagnostic) : Prop where
  fields : state.1.fields = (firsts seen).map fun f => merged scope f.1 f.2
  duplicates : state.2.countP (·.isDuplicate) + state.1.fields.length = seen.length
  unfit : state.2.filter (·.isUnfit) =
    (state.1.fields.filter fun f => isUnfit scope f.decl).map fun f => unfitReport scope f.decl
  reports : ∀ report ∈ state.2, report.isDuplicate = true ∨ report.isUnfit = true

theorem accounts_empty (scope : Scope) : Accounts scope [] ({}, []) := ⟨rfl, rfl, rfl, by simp⟩

/-- The accounts are kept when one more field is dealt with. -/
theorem Accounts.add (h : Accounts scope seen state) (owner : String) (f : FieldDecl) :
    Accounts scope (seen ++ [(owner, f)])
      ((state.1.add scope owner f).1, state.2 ++ (state.1.add scope owner f).2) := by
  have hnames : state.1.names = (firsts seen).map (·.2.name) := by
    rw [names, h.fields, List.map_map]
    rfl
  by_cases hname : f.name ∈ state.1.names
  · obtain ⟨first, hadd⟩ := add_of_taken scope owner hname
    rw [hadd]
    refine ⟨?fields, ?duplicates, ?unfit, ?reports⟩
    case fields => rw [firsts_concat, if_pos (hnames ▸ hname), h.fields]
    case duplicates =>
      have hcount := h.duplicates
      simp only [List.countP_append, List.countP_singleton, isDuplicate_duplicateReport, if_true,
        List.length_append, List.length_singleton]
      omega
    case unfit =>
      rw [List.filter_append, h.unfit]
      simp
    case reports => simpa [or_imp, forall_and] using h.reports
  · have hfirsts : firsts (seen ++ [(owner, f)]) = firsts seen ++ [(owner, f)] := by
      rw [firsts_concat, if_neg (hnames ▸ hname)]
    rw [add_of_free scope owner hname]
    refine ⟨?fields, ?duplicates, ?unfit, ?reports⟩
    case fields =>
      rw [hfirsts, List.map_append, ← h.fields]
      rfl
    case duplicates =>
      have hcount := h.duplicates
      simp only [List.countP_append, List.length_append, List.length_singleton]
      split <;> simp <;> omega
    case unfit =>
      simp only [List.filter_append, h.unfit, List.map_append]
      cases hunfit : isUnfit scope f <;> simp [merged, hunfit]
    case reports =>
      dsimp only
      split
      · simpa [or_imp, forall_and] using h.reports
      · simpa using h.reports

theorem accounts_addAll (h : Accounts scope seen state) (fs : List (String × FieldDecl)) :
    Accounts scope (seen ++ fs) (addAll scope state fs) := by
  induction fs generalizing seen state with
  | nil => rwa [List.append_nil]
  | cons f rest ih =>
    rw [List.append_cons]
    exact ih (h.add f.1 f.2)

theorem accounts_merge (scope : Scope) (components : List ComponentDecl) :
    Accounts scope (owned components) (merge scope components) :=
  accounts_addAll (accounts_empty scope) (owned components)

/-! ### Interpolated fields in order -/

/-- Names of their own ascend strictly where they are sorted. -/
theorem pairwise_syncValues (hnames : s.names.Nodup) (hshadows : s.ListsShadows scope) :
    s.syncValues.Pairwise fun f g => f.name < g.name := by
  have hdistinct : s.syncValues.Pairwise fun f g => f.name ≠ g.name := by
    have hfields : s.fields.Pairwise fun f g => f.name ≠ g.name := List.pairwise_map.1 hnames
    exact (syncValues_perm hnames hshadows).symm.pairwise
      (hfields.sublist List.filter_sublist) fun h => h.symm
  refine ((Ordered.names.on MergedField.name).pairwise_mergeSort _ |>.imp₂ ?_ hdistinct)
  intro f g hle hne
  exact String.not_le.1 fun hge => hne (String.le_antisymm (of_decide_eq_true hle) hge)

/-- Every field of the components that is not imported is accounted for. The set has the first of each
    name with its owner, in the order of the components, and there is one report for each of the others.
    The synchronized values are the interpolated fields of type `float`, by name, and there is one
    report for each interpolated field of any other type. An entity that is not synchronized has none of
    either. -/
theorem merge_accounts (scope : Scope) (components : List ComponentDecl) :
    let fields := components.flatMap fun c => (c.fields.filter fun f => !f.imported).map (c.name, ·)
    let set := (merge scope components).1
    let reports := (merge scope components).2
    set.fields = (firsts fields).map (fun f => merged scope f.1 f.2) ∧
      set.names.Nodup ∧
      reports.countP (·.isDuplicate) + set.fields.length = fields.length ∧
      set.syncValues.Perm (set.fields.filter fun f =>
        scope.synced && f.decl.isSyncValue && f.decl.type == "float") ∧
      set.syncValues.Pairwise (fun f g => f.name < g.name) ∧
      reports.filter (·.isUnfit) = (set.fields.filter fun f =>
        scope.synced && f.decl.isSyncValue && f.decl.type != "float").map
          (fun f => unfitReport scope f.decl) ∧
      reports.all (fun report => report.isDuplicate || report.isUnfit) = true := by
  have haccounts := accounts_merge scope components
  have hnames := names_nodup_merge scope components
  have hshadows := listsShadows_merge scope components
  refine ⟨haccounts.fields, hnames, haccounts.duplicates, syncValues_perm hnames hshadows,
    pairwise_syncValues hnames hshadows, haccounts.unfit, ?_⟩
  simpa only [List.all_eq_true, Bool.or_eq_true] using haccounts.reports

end FieldSet

end EntityWeaver
