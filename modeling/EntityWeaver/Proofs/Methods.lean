import EntityWeaver.Proofs.Implementation
import EntityWeaver.Proofs.Merge.Isolation
import Mathlib.Data.List.Pairwise

/-! Which methods a generated class declares.

    The methods of an entity come from four places, one behind the other:

        plans       one for each signature that is merged
        helpers     behind their plan, called `signature__block`
        plumbing    what every entity has
        accessors   for what the contracts promise and no component declares

    Each place looks at some of what is there already, and none at all of it. So there are three ways
    in which a signature can be declared twice, and no other. -/

namespace EntityWeaver

/-! ### Signatures of generated methods -/

namespace SourceMethod

/-- A constructor has no return type. -/
def isConstructor (m : SourceMethod) : Bool := m.returnType.isNone

/-- The signatures of methods in order, without constructors. -/
def signaturesOf (ms : List SourceMethod) : List Signature :=
  (ms.filter (!·.isConstructor)).map (·.signature)

theorem signaturesOf_append (xs ys : List SourceMethod) :
    signaturesOf (xs ++ ys) = signaturesOf xs ++ signaturesOf ys := by
  rw [signaturesOf, List.filter_append, List.map_append]
  rfl

theorem signaturesOf_cons {m : SourceMethod} (hm : m.isConstructor = false) (ms : List SourceMethod) :
    signaturesOf (m :: ms) = m.signature :: signaturesOf ms := by
  rw [signaturesOf, List.filter_cons_of_pos (by simp [hm]), List.map_cons]
  rfl

theorem mem_signaturesOf_iff {ms : List SourceMethod} {s : Signature} :
    s ∈ signaturesOf ms ↔ ∃ m ∈ ms, m.isConstructor = false ∧ m.signature = s := by
  simp [signaturesOf, and_assoc]

theorem signaturesOf_flatten (xss : List (List SourceMethod)) :
    signaturesOf xss.flatten = (xss.map signaturesOf).flatten := by
  rw [signaturesOf, List.filter_flatten, List.map_flatten, List.map_map]
  rfl

/-- Where every method comes from something with its signature, the signatures are theirs. -/
theorem signaturesOf_eq_map {α : Type} {signature : α → Signature} {as : List α}
    {ms : List SourceMethod}
    (h : List.Forall₂ (fun a m => m.isConstructor = false ∧ m.signature = signature a) as ms) :
    signaturesOf ms = as.map signature := by
  induction h with
  | nil => rfl
  | cons hfirst _ ih => rw [signaturesOf_cons hfirst.1, hfirst.2, ih, List.map_cons]

end SourceMethod

/-- The signature of the method that a helper becomes. -/
def Helper.signature (h : Helper) : Signature := .ofTypes h.name (h.params.map (·.type))

theorem Helper.signature_of_toSource? {h : Helper} {m : SourceMethod} (hm : h.toSource? = some m) :
    m.isConstructor = false ∧ m.signature = h.signature := by
  obtain ⟨code, -, hm⟩ := Option.bind_eq_some_iff.1 hm
  obtain rfl := Option.some.inj hm
  refine ⟨rfl, ?_⟩
  simp [SourceMethod.signature, signature, Function.comp_def]

namespace MethodPlan

/-- The signatures of the methods that a plan becomes. -/
def signatures (p : MethodPlan) : List Signature := p.signature :: p.helpers.map Helper.signature

/-- The methods of a plan: the merged one is of the plan's signature, and the helpers take the same
    types and are told apart by blocks behind its name. -/
structure Outlines (p : MethodPlan) (s : Signature) : Prop where
  signature : p.signature = s
  params : Signature.ofTypes s.name (p.params.map (·.type)) = s
  helpers : ∀ h ∈ p.helpers, ∃ block, h.signature = ⟨s.name ++ "__" ++ block, s.params⟩
  distinct : (p.helpers.map (·.name)).Nodup

variable {p : MethodPlan} {s : Signature}

theorem signature_of_mainMethod? {m : SourceMethod} (hm : p.mainMethod? = some m) :
    m.isConstructor = false ∧
      m.signature = .ofTypes p.signature.name (p.params.map (·.type)) := by
  obtain ⟨code, -, hm⟩ := Option.bind_eq_some_iff.1 hm
  obtain rfl := Option.some.inj hm
  refine ⟨rfl, ?_⟩
  simp [SourceMethod.signature, Function.comp_def]

theorem signaturesOf_toSource? (hp : p.Outlines s) {ms : List SourceMethod}
    (h : p.toSource? = some ms) : SourceMethod.signaturesOf ms = p.signatures := by
  obtain ⟨main, hmain, h⟩ := Option.bind_eq_some_iff.1 h
  obtain ⟨helpers, hhelpers, h⟩ := Option.bind_eq_some_iff.1 h
  obtain rfl := Option.some.inj h
  obtain ⟨hkind, hsignature⟩ := signature_of_mainMethod? hmain
  have hrest : SourceMethod.signaturesOf helpers = p.helpers.map Helper.signature :=
    SourceMethod.signaturesOf_eq_map
      ((mapM_eq_some.1 hhelpers).imp fun _ _ => Helper.signature_of_toSource?)
  rw [SourceMethod.signaturesOf_cons hkind, hsignature, hrest, hp.signature, hp.params, signatures,
    hp.signature]

/-- The methods of some plans, in order. -/
theorem signaturesOf_flatten_toSource? {plans : List MethodPlan} {planned : List (List SourceMethod)}
    (hplans : ∀ p ∈ plans, p.Outlines p.signature)
    (h : plans.mapM MethodPlan.toSource? = some planned) :
    SourceMethod.signaturesOf planned.flatten = plans.flatMap (·.signatures) := by
  have heach : List.Forall₂ (fun p ms => p.Outlines p.signature ∧ p.toSource? = some ms) plans
      planned := (List.forall₂_and_left _ _).2 ⟨hplans, mapM_eq_some.1 h⟩
  rw [SourceMethod.signaturesOf_flatten, List.flatMap_def,
    map_eq_map_of_forall₂ heach fun p ms hms => (signaturesOf_toSource? hms.1 hms.2).symm]

/-! ### Names of helpers -/

/-- The name of a helper has an underscore in it. -/
theorem Outlines.underscore_mem (hp : p.Outlines s) {h : Helper} (hh : h ∈ p.helpers) :
    '_' ∈ h.signature.name.toList := by
  obtain ⟨block, hname⟩ := hp.helpers h hh
  rw [hname, String.toList_append, String.toList_append]
  exact List.mem_append_left _ (List.mem_append_right _ List.mem_cons_self)

/-- The helpers of one plan have signatures of their own, none of which is the plan's. -/
theorem Outlines.signatures_nodup (hp : p.Outlines s) : p.signatures.Nodup := by
  refine List.nodup_cons.2 ⟨fun hmem => ?_, ?_⟩
  · obtain ⟨h, hh, hsame⟩ := List.mem_map.1 hmem
    obtain ⟨block, hname⟩ := hp.helpers h hh
    rw [hp.signature, hname] at hsame
    have hlength := congrArg (·.name.length) hsame
    simp only [String.length_append] at hlength
    have hbar : "__".length = 2 := rfl
    omega
  · refine List.Nodup.of_map Signature.name ?_
    rw [List.map_map]
    exact hp.distinct

end MethodPlan

namespace MergeFacts

variable {facts : MergeFacts} {signature : Signature} {candidates : List Candidate}
  {splices : List Splice} {hook : Option CodeHook} {plan : MethodPlan}

section Selected

variable {injected : Bool} {first : Candidate} {kept : List Candidate} {s : Selection}

theorem SelectedFrom.survivors_subset
    (hs : SelectedFrom facts signature candidates splices injected first kept s) :
    s.survivors ⊆ candidates := fun _ hc => (hs.mem_survivors_iff.1 hc).listed

/-- The parameters of a merged method are those of a candidate. -/
theorem SelectedFrom.exists_template
    (hs : SelectedFrom facts signature candidates splices injected first kept s) :
    ∃ c ∈ candidates, c.method = s.template := by
  rw [hs.template, chooseTemplate]
  cases hc : (s.survivors.find? (·.isConcrete)).or s.survivors.head? with
  | none => exact ⟨first, List.mem_of_head? hs.head, rfl⟩
  | some c =>
    refine ⟨c, hs.survivors_subset ?_, rfl⟩
    rcases Option.or_eq_some_iff.1 hc with hfound | ⟨-, hhead⟩
    · exact List.mem_of_find?_eq_some hfound
    · exact List.mem_of_head? hhead

end Selected

/-- What a signature is merged into, where the candidates have blocks of their own. -/
theorem outlines_of_merge (hsignature : ∀ c ∈ candidates, c.method.signature = signature)
    (hblocks : (candidates.map fun c => ComponentName.block c.component.name).Nodup)
    (h : facts.merge signature candidates splices hook = .ok (some plan)) :
    plan.Outlines signature := by
  obtain ⟨s, injected, hselect, -, rfl⟩ := merge_eq_ok_some h
  obtain ⟨first, kept, hs⟩ := select_eq_ok_some hselect
  refine ⟨rfl, ?_, fun h hh => ?_, ?_⟩
  · obtain ⟨c, hc, htemplate⟩ := hs.exists_template
    show Signature.ofTypes signature.name (s.template.params.map (·.type)) = signature
    rw [← htemplate, ← hsignature c hc]
    rfl
  · have hholds : List.Forall₂ (Helper.Holds signature) (s.isolated signature)
        (s.plan facts signature injected).helpers := Selection.forall₂_isolated
    obtain ⟨c, hc, hholds⟩ := exists_of_forall₂ hholds.flip hh
    have hsame := hsignature c (hs.survivors_subset (Selection.mem_isolated_iff.1 hc).2.1)
    refine ⟨ComponentName.block c.component.name, ?_⟩
    rw [Helper.signature, hholds.name, hholds.params, ← hsame]
    rfl
  · have hordered : ((s.ordered signature).map fun c =>
        ComponentName.block c.component.name).Nodup :=
      ((s.ordered_perm_survivors signature).map _).nodup_iff.2 (hs.survivors_map_nodup hblocks)
    rw [Selection.plan_helpers]
    exact (s.layouter signature).helper_names_nodup hordered

end MergeFacts

/-! ### Plans of one entity -/

/-- Plans of different signatures declare nothing twice as long as no helper of one has a signature of
    another. -/
theorem MethodPlan.nodup_flatMap_signatures_iff {plans : List MethodPlan}
    (houtlines : ∀ p ∈ plans, p.Outlines p.signature) (hdistinct : (plans.map (·.signature)).Nodup) :
    (plans.flatMap (·.signatures)).Nodup ↔
      ∀ p ∈ plans, ∀ q ∈ plans, q.signature ≠ p.signature → ∀ h ∈ p.helpers,
        h.signature ∉ q.signatures := by
  rw [List.nodup_flatMap]
  constructor
  · rintro ⟨-, hdisjoint⟩ p hp q hq hne h hh hmem
    have hpq : p ≠ q := fun heq => hne (heq ▸ rfl)
    have : Std.Symm (Function.onFun List.Disjoint MethodPlan.signatures) :=
      ⟨fun _ _ hab => List.disjoint_symm hab⟩
    exact hdisjoint.forall hp hq hpq (List.mem_cons_of_mem _ (List.mem_map_of_mem hh)) hmem
  · intro hapart
    refine ⟨fun p hp => (houtlines p hp).signatures_nodup, ?_⟩
    refine (List.pairwise_map.1 hdistinct).imp_of_mem fun {p q} hp hq hne s hsp hsq => ?_
    rcases List.mem_cons.1 hsp with rfl | hsp
    · obtain ⟨h, hh, hsame⟩ := List.mem_map.1 ((List.mem_cons.1 hsq).resolve_left hne)
      exact hapart q hq p hp hne h hh (hsame ▸ List.mem_cons_self)
    · obtain ⟨h, hh, rfl⟩ := List.mem_map.1 hsp
      exact hapart p hp q hq (Ne.symm hne) h hh hsq

namespace Draft

variable {p : Project} {d : Draft} {contracts : OrderedMap String Contract} {history : List Revision}
  {bases : OrderedMap String BaseClass} {f : Finished} {s : Signature} {cs : List Candidate}
  {plan : MethodPlan}

/-- The components of a draft are told apart by blocks, and the methods of each by signature. -/
structure Distinct (d : Draft) : Prop where
  blocks : (d.components.map fun c => ComponentName.block c.name).Nodup
  signatures : ∀ c ∈ d.components, (c.methods.map (·.signature)).Nodup

/-- All methods of the components are told apart by block and signature. -/
theorem Distinct.declarations_nodup (hd : d.Distinct) : (d.declarations.map fun c =>
    (ComponentName.block c.component.name, c.method.signature)).Nodup := by
  simp only [declarations, List.map_flatMap, List.map_map]
  refine List.nodup_flatMap.2 ⟨fun c hc => ?_, ?_⟩
  · refine List.Nodup.of_map Prod.snd ?_
    rw [List.map_map]
    exact hd.signatures c hc
  · refine (List.pairwise_map.1 hd.blocks).imp fun {a b} hne x hxa hxb => ?_
    obtain ⟨_, -, rfl⟩ := List.mem_map.1 hxa
    obtain ⟨_, -, hsame⟩ := List.mem_map.1 hxb
    exact hne (congrArg Prod.fst hsame).symm

/-- So the candidates of a signature are told apart by blocks. -/
theorem Distinct.candidates_nodup (hd : d.Distinct) (h : (s, cs) ∈ d.candidates.entries) :
    (cs.map fun c => ComponentName.block c.component.name).Nodup := by
  have hall := hd.declarations_nodup
  rw [← OrderedMap.get?_eq_some_iff, get?_candidates] at h
  split at h
  · cases h
  obtain rfl := Option.some.inj h
  have hnodup : (d.declarations.filter (·.method.signature = s)).Nodup := hall.of_map.filter _
  refine hnodup.map_on fun a ha b hb hblock => ?_
  rw [List.mem_filter, decide_eq_true_iff] at ha hb
  exact List.inj_on_of_nodup_map hall ha.1 hb.1 (Prod.ext hblock (ha.2.trans hb.2.symm))

/-- A plan is what the candidates of its signature are merged into. -/
theorem exists_merge_of_plan (h : (d.mergeSignature p history s cs).plan = some plan) :
    ∃ hook, d.facts.merge s cs (p.catalog.splices.aimedAt s) hook = .ok (some plan) := by
  unfold mergeSignature at h
  dsimp only at h
  split at h
  · cases h
  split at h
  · next hplan =>
    obtain rfl : _ = some plan := h
    exact ⟨_, hplan⟩
  · cases h

/-! ### Plumbing -/

/-- The methods that every entity is given, whatever its components declare. -/
def supplied (pooled : Bool) : List Signature :=
  (if pooled then [.nullary "reset"] else []) ++ [.nullary "create", .nullary "classId"]

/-- Two methods are left out if a component has them. -/
theorem signaturesOf_plumbing (declared : List Signature) (plans : List MethodPlan) :
    SourceMethod.signaturesOf (d.plumbing declared plans) =
      (if .nullary "toString" ∈ declared then [] else [.nullary "toString"]) ++
      (if plans.any (·.signature == .nullary "serialize") then [] else [.nullary "serialize"]) ++
        supplied d.heading.blueprint.pooled := by
  unfold plumbing supplied
  simp only [SourceMethod.signaturesOf_append, List.append_assoc]
  congr 1
  · split <;> rfl
  congr 1
  · split <;> rfl
  congr 1
  split <;> rfl

theorem mem_signaturesOf_plumbing_iff {declared : List Signature} {plans : List MethodPlan} :
    s ∈ SourceMethod.signaturesOf (d.plumbing declared plans) ↔
      s = .nullary "toString" ∧ s ∉ declared ∨
      s = .nullary "serialize" ∧ s ∉ plans.map (·.signature) ∨
        s ∈ supplied d.heading.blueprint.pooled := by
  have hserialize : plans.any (·.signature == .nullary "serialize") = true ↔
      .nullary "serialize" ∈ plans.map (·.signature) := by
    simp
  rw [signaturesOf_plumbing, List.mem_append, List.mem_append, or_assoc, List.mem_ite_nil_left,
    List.mem_ite_nil_left, List.mem_singleton, List.mem_singleton, hserialize]
  refine or_congr ?_ (or_congr_left ?_)
  · exact and_comm.trans (and_congr_right fun hs => by rw [hs])
  · exact and_comm.trans (and_congr_right fun hs => by rw [hs])

/-- Every entity is given some of five methods, in one order. -/
theorem signaturesOf_plumbing_sublist (d : Draft) (declared : List Signature)
    (plans : List MethodPlan) : (SourceMethod.signaturesOf (d.plumbing declared plans)).Sublist
      ([.nullary "toString"] ++ [.nullary "serialize"] ++ supplied true) := by
  rw [signaturesOf_plumbing]
  refine List.Sublist.append (List.Sublist.append ?_ ?_) ?_
  · split
    · exact List.nil_sublist _
    · exact .refl _
  · split
    · exact List.nil_sublist _
    · exact .refl _
  · cases d.heading.blueprint.pooled with
    | false => exact List.sublist_cons_self _ _
    | true => exact .refl _

/-- What an entity is given declares a signature of a plan again just when the plan has one that is
    given in any case. -/
theorem nodup_planned_plumbing_iff {plans : List MethodPlan} {declared : List Signature}
    (houtlines : ∀ p ∈ plans, p.Outlines p.signature)
    (hdeclared : ∀ p ∈ plans, p.signature ∈ declared) :
    (plans.flatMap (·.signatures) ++ SourceMethod.signaturesOf (d.plumbing declared plans)).Nodup ↔
      (plans.flatMap (·.signatures)).Nodup ∧
        ∀ p ∈ plans, p.signature ∉ supplied d.heading.blueprint.pooled := by
  have hgiven := signaturesOf_plumbing_sublist d declared plans
  have hnodup : (SourceMethod.signaturesOf (d.plumbing declared plans)).Nodup :=
    List.Nodup.sublist hgiven (by decide)
  have hplain : ∀ s ∈ [Signature.nullary "toString"] ++ [.nullary "serialize"] ++ supplied true,
      '_' ∉ s.name.toList := by
    decide
  rw [List.nodup_append, and_iff_right hnodup]
  refine and_congr_right fun _ => ⟨fun h q hq hsupplied => ?_, fun h s hs s' hgiven' => ?_⟩
  · exact h _ (List.mem_flatMap.2 ⟨q, hq, List.mem_cons_self⟩) _
      (mem_signaturesOf_plumbing_iff.2 (.inr (.inr hsupplied))) rfl
  · rintro rfl
    obtain ⟨q, hq, hs⟩ := List.mem_flatMap.1 hs
    rcases List.mem_cons.1 hs with rfl | hs
    · rcases mem_signaturesOf_plumbing_iff.1 hgiven' with ⟨-, habsent⟩ | ⟨-, habsent⟩ | hsupplied
      · exact habsent (hdeclared q hq)
      · exact habsent (List.mem_map_of_mem hq)
      · exact h q hq hsupplied
    · obtain ⟨helper, hhelper, rfl⟩ := List.mem_map.1 hs
      exact hplain _ (hgiven.subset hgiven') ((houtlines q hq).underscore_mem hhelper)

/-! ### Accessors -/

/-- A setter of a field stands beside a method of its signature that spells the type otherwise. -/
structure Respells (field : MergedField) (setter other : SourceMethod) : Prop where
  name : setter.name = field.name
  type : setter.params.map (·.type) = [field.decl.type]
  methods : setter.isConstructor = false ∧ other.isConstructor = false
  signature : other.signature = setter.signature
  text : other.signatureText ≠ setter.signatureText

/-- A getter or a setter of a field. -/
structure Accesses (field : MergedField) (m : SourceMethod) : Prop where
  name : m.name = field.name
  isMethod : m.isConstructor = false
  params : m.params = [] ∨ m.params.map (·.type) = [field.decl.type]

/-- Methods with accessors of fields behind them, none of which is printed like a method ahead. -/
inductive Accrues (fields : List MergedField) (ms : List SourceMethod) : List SourceMethod → Prop
  | start : Accrues fields ms ms
  | accessor {ms' : List SourceMethod} {field : MergedField} {m : SourceMethod}
      (hms' : Accrues fields ms ms') (hfield : field ∈ fields) (hm : Accesses field m)
      (hnew : ∀ q ∈ ms', q.signatureText ≠ m.signatureText) : Accrues fields ms (ms' ++ [m])

variable {fields : List MergedField} {ms ms' : List SourceMethod}

theorem Accrues.sublist (h : Accrues fields ms ms') : ms.Sublist ms' := by
  induction h with
  | start => exact .refl ms
  | accessor _ _ _ _ ih => exact ih.trans (List.sublist_append_left _ _)

/-- Where no signature is declared twice, no setter stands beside a method that spells it otherwise. -/
theorem not_respells_of_nodup (h : (SourceMethod.signaturesOf ms).Nodup) {field : MergedField}
    {setter other : SourceMethod} (hsetter : setter ∈ ms) (hother : other ∈ ms) :
    ¬Respells field setter other := by
  intro hrespells
  have hmem : ∀ m ∈ ms, m.isConstructor = false → m ∈ ms.filter (!·.isConstructor) :=
    fun m hm hkind => List.mem_filter.2 ⟨hm, by rw [hkind, Bool.not_false]⟩
  obtain ⟨hkind, hkind'⟩ := hrespells.methods
  have hsame := List.inj_on_of_nodup_map h (hmem _ hother hkind') (hmem _ hsetter hkind)
    hrespells.signature
  exact hrespells.text (congrArg SourceMethod.signatureText hsame)

/-- An accessor that no method is printed like has a new signature, unless a method spells it
    otherwise. -/
theorem Accesses.signature_notMem {field : MergedField} {m : SourceMethod} (hm : Accesses field m)
    (hnew : ∀ q ∈ ms, q.signatureText ≠ m.signatureText) (hspelled : ∀ q ∈ ms, ¬Respells field m q) :
    m.signature ∉ SourceMethod.signaturesOf ms := by
  intro hmem
  obtain ⟨q, hq, hkind, hsignature⟩ := SourceMethod.mem_signaturesOf_iff.1 hmem
  rcases hm.params with hnone | htype
  · -- methods without parameters have one spelling
    obtain ⟨hname, hparams⟩ := Signature.mk.inj hsignature
    rw [hnone, List.map_nil, List.map_nil, List.map_eq_nil_iff, List.map_eq_nil_iff] at hparams
    refine hnew q hq ?_
    rw [SourceMethod.signatureText, SourceMethod.signatureText, hname, hparams, hnone]
  · exact hspelled q hq ⟨hm.name, htype, ⟨hm.isMethod, hkind⟩, hsignature, hnew q hq⟩

/-- Accessors declare a signature again just when a setter stands beside a method that spells it
    otherwise. -/
theorem Accrues.nodup_iff (h : Accrues fields ms ms') :
    (SourceMethod.signaturesOf ms').Nodup ↔ (SourceMethod.signaturesOf ms).Nodup ∧
      ∀ field ∈ fields, ∀ setter ∈ ms', ∀ other ∈ ms', ¬Respells field setter other := by
  constructor
  · intro hnodup
    refine ⟨hnodup.sublist ((h.sublist.filter _).map _), ?_⟩
    exact fun field _ setter hsetter other hother => not_respells_of_nodup hnodup hsetter hother
  · rintro ⟨hnodup, hspelled⟩
    induction h with
    | start => exact hnodup
    | @accessor ms' field m _ hfield hm hnew ih =>
      have hsub : ms' ⊆ ms' ++ [m] := List.subset_append_left _ _
      have hfirst := ih fun g hg setter hsetter other hother =>
        hspelled g hg setter (hsub hsetter) other (hsub hother)
      have hfresh := hm.signature_notMem hnew fun q hq =>
        hspelled field hfield m List.mem_concat_self q (hsub hq)
      rw [SourceMethod.signaturesOf_append, SourceMethod.signaturesOf_cons hm.isMethod]
      refine List.nodup_append.2 ⟨hfirst, List.nodup_singleton _, fun s hs s' hs' => ?_⟩
      obtain rfl := List.mem_singleton.1 hs'
      exact fun heq => hfresh (heq ▸ hs)

/-- What implements a contract method accesses a field. -/
theorem accesses_of_accessor? {m : ContractMethod} {field : MergedField} {accessor : SourceMethod}
    (hname : m.name = field.name) (h : accessor? m field = some accessor) :
    Accesses field accessor := by
  unfold accessor? at h
  dsimp only at h
  split at h
  · split at h
    · cases h
    · obtain rfl := Option.some.inj h
      exact ⟨hname, rfl, .inr rfl⟩
  · obtain rfl := Option.some.inj h
    exact ⟨hname, rfl, .inl rfl⟩

/-- Implementing one contract method adds one accessor to the class, or none. -/
theorem implement_accrues {declared : List Signature} {w : Workbench} (m : ContractMethod)
    (h : Accrues d.fields.fields ms w.type.methods) :
    Accrues d.fields.fields ms (implement p d declared w m).type.methods := by
  unfold implement
  split
  · exact h
  next field hfield =>
  split
  · exact h
  split
  · exact h
  next accessor haccessor =>
  have hname : m.name = field.name := by
    have hfound := List.find?_some hfield
    exact (beq_iff_eq.1 hfound).symm
  have hmem : field ∈ d.fields.fields := List.mem_of_find?_eq_some hfield
  have haccesses := accesses_of_accessor? hname haccessor
  unfold placeAccessor
  split
  · split
    · exact h
    · exact h
  split
  · exact h
  split
  · exact h
  next hnew =>
  refine .accessor h hmem haccesses fun q hq htext => hnew ?_
  exact List.any_eq_true.2 ⟨q, hq, beq_iff_eq.2 htext⟩

theorem implementAll_accrues {declared : List Signature} {w : Workbench}
    (promised : List ContractMethod) (h : Accrues d.fields.fields ms w.type.methods) :
    Accrues d.fields.fields ms (promised.foldl (implement p d declared) w).type.methods := by
  induction promised generalizing w with
  | nil => exact h
  | cons m rest ih => exact ih (implement_accrues m h)

/-! ### All methods of an entity -/

/-- What the plans of an entity are: one for each signature that has one, laid out as it was merged. -/
theorem FinishedFrom.outlines (hf : FinishedFrom p contracts d history bases f) (hd : d.Distinct) :
    (f.entity.plans.map (·.signature)).Nodup ∧
      ∀ plan ∈ f.entity.plans, plan.Outlines plan.signature ∧ plan.signature ∈ d.candidates.keys := by
  have hmerged : ∀ e ∈ d.candidates.entries, ∀ plan,
      (d.mergeSignature p history e.1 e.2).plan = some plan → plan.Outlines e.1 := by
    intro e he plan hplan
    obtain ⟨hook, hmerge⟩ := exists_merge_of_plan hplan
    exact MergeFacts.outlines_of_merge (fun c hc => ((of_mem_candidates he).2 c hc).2.2)
      (hd.candidates_nodup he) hmerge
  rw [hf.plans, merged, List.filterMap_map]
  constructor
  · have hkeys := List.pairwise_map.1 d.candidates.distinct
    refine List.pairwise_map.2 (List.pairwise_filterMap.2 (hkeys.imp_of_mem ?_))
    intro a b ha hb hne x hx y hy hsame
    rw [(hmerged a ha x hx).signature, (hmerged b hb y hy).signature] at hsame
    exact hne hsame
  · intro plan hplan
    obtain ⟨e, he, hplan⟩ := List.mem_filterMap.1 hplan
    have houtlines := hmerged e he plan hplan
    rw [houtlines.signature]
    exact ⟨houtlines, List.mem_map_of_mem he⟩

end Draft

/-- Two methods of an entity are declared under one signature. -/
inductive Entity.Clashes (e : Entity) (pooled : Bool) : Prop
  /-- A method of the components is one that every entity is given. -/
  | supplied {plan : MethodPlan} (hplan : plan ∈ e.plans)
      (hsignature : plan.signature ∈ Draft.supplied pooled)
  /-- A helper is called like a method of another plan. -/
  | helper {plan other : MethodPlan} {h : Helper} (hplan : plan ∈ e.plans) (hh : h ∈ plan.helpers)
      (hother : other ∈ e.plans) (hne : other.signature ≠ plan.signature)
      (hsignature : h.signature ∈ other.signatures)
  /-- A setter is added beside a method that spells its type otherwise. -/
  | respelled {field : MergedField} {setter other : SourceMethod} (hfield : field ∈ e.fields.fields)
      (hsetter : setter ∈ e.type.methods) (hother : other ∈ e.type.methods)
      (hrespells : Draft.Respells field setter other)

namespace Draft

variable {p : Project} {d : Draft} {contracts : OrderedMap String Contract} {history : List Revision}
  {bases : OrderedMap String BaseClass} {f : Finished}

/-- The class of an entity declares no signature twice unless it does so in one of three ways. -/
theorem FinishedFrom.nodup_iff_not_clashes (hf : FinishedFrom p contracts d history bases f)
    (hd : d.Distinct) : (SourceMethod.signaturesOf f.entity.type.methods).Nodup ↔
      ¬f.entity.Clashes d.heading.blueprint.pooled := by
  obtain ⟨hdistinct, hplans⟩ := hf.outlines hd
  obtain ⟨type, planned, -, ⟨hplanned, hmethods⟩, hbench⟩ := hf.workbench
  have haccrues : Accrues d.fields.fields type.methods ((d.promised contracts).foldl
      (implement p d d.candidates.keys) ⟨type, bases⟩).type.methods :=
    implementAll_accrues _ .start
  rw [hbench] at haccrues
  have hfirst : SourceMethod.signaturesOf type.methods = f.entity.plans.flatMap (·.signatures) ++
      SourceMethod.signaturesOf (d.plumbing d.candidates.keys f.entity.plans) := by
    rw [hmethods, SourceMethod.signaturesOf_append,
      MethodPlan.signaturesOf_flatten_toSource? (fun q hq => (hplans q hq).1) hplanned]
  rw [haccrues.nodup_iff, hfirst,
    nodup_planned_plumbing_iff (fun q hq => (hplans q hq).1) fun q hq => (hplans q hq).2,
    MethodPlan.nodup_flatMap_signatures_iff (fun q hq => (hplans q hq).1) hdistinct, ← hf.fields]
  constructor
  · rintro ⟨⟨hapart, hgiven⟩, hspelled⟩ hclash
    cases hclash with
    | supplied hplan hsignature => exact hgiven _ hplan hsignature
    | helper hplan hh hother hne hsignature => exact hapart _ hplan _ hother hne _ hh hsignature
    | respelled hfield hsetter hother hrespells =>
      exact hspelled _ hfield _ hsetter _ hother hrespells
  · intro hclash
    refine ⟨⟨fun plan hplan other hother hne h hh hsignature => hclash ?_,
      fun plan hplan hsignature => hclash ?_⟩,
      fun field hfield setter hsetter other hother hrespells => hclash ?_⟩
    · exact .helper hplan hh hother hne hsignature
    · exact .supplied hplan hsignature
    · exact .respelled hfield hsetter hother hrespells

end Draft

end EntityWeaver
