import EntityWeaver.Proofs.Catalog
import EntityWeaver.Proofs.ComponentName
import EntityWeaver.Proofs.Except

/-! References by the names of contracts.

    Where contracts have names of their own, and none that a component has, the name of a component's
    contract is a reference to the component: taking a snapshot into the catalog leads both back to one
    name. So it does not matter by which of the two an author refers to a component.

        HealthComp ──kept──────────────▶ HealthComp
        Healthc    ──not declared─┬────▶ HealthComp    declared first among what it may stand for
                                  └────▶ Health        only if the former is not declared

    The component that has no name is an exception, since its contract's name stands for nothing. -/

namespace EntityWeaver

section Respelled

variable (R : String → String → Prop)

/-- A directive whose references are spelled otherwise. -/
inductive Directive.Respelled : Directive → Directive → Prop where
  | remove {c c' : String} (component : R c c') : Respelled (.remove c) (.remove c')
  | extend {cs cs' : List String} (mode : ExtendMode) (components : List.Forall₂ R cs cs') :
      Respelled (.extend cs mode) (.extend cs' mode)
  | insert (target : String) {b b' : Option String} (after : Bool) (block : Option.Rel R b b') :
      Respelled (.insert target b after) (.insert target b' after)
  | wrap (target : String) {b b' : Option String} (block : Option.Rel R b b') :
      Respelled (.wrap target b) (.wrap target b')
  | same (d : Directive) : Respelled d d

/-- A method whose references are spelled otherwise. -/
structure MethodDecl.Respelled (m m' : MethodDecl) : Prop where
  directives : List.Forall₂ (Directive.Respelled R) m.directives m'.directives
  rest : m' = { m with directives := m'.directives }

/-- A component whose references are spelled otherwise. -/
structure ComponentDecl.Respelled (c c' : ComponentDecl) : Prop where
  markers : List.Forall₂ R c.markers c'.markers
  excludedGroups : List.Forall₂ R c.excludedGroups c'.excludedGroups
  methods : List.Forall₂ (MethodDecl.Respelled R) c.methods c'.methods
  rest : c' = { c with
    markers := c'.markers, excludedGroups := c'.excludedGroups, methods := c'.methods }

/-- A blueprint whose references are spelled otherwise. -/
structure BlueprintDecl.Respelled (b b' : BlueprintDecl) : Prop where
  components : List.Forall₂ R b.components b'.components
  component : Option.Rel R b.component b'.component
  rest : b' = { b with components := b'.components, component := b'.component }

/-- The same declarations with some references spelled otherwise. -/
structure Snapshot.Respelled (s s' : Snapshot) : Prop where
  components : List.Forall₂ (ComponentDecl.Respelled R) s.components s'.components
  blueprints : List.Forall₂ (BlueprintDecl.Respelled R) s.blueprints s'.blueprints
  rest : s' = { s with components := s'.components, blueprints := s'.blueprints }

end Respelled

theorem map_eq_map_of_rel {α β γ : Type} {R : α → β → Prop} {f : α → γ} {g : β → γ}
    {x : Option α} {y : Option β} (h : Option.Rel R x y) (hR : ∀ a b, R a b → f a = g b) :
    x.map f = y.map g := by
  cases h with
  | some hx => exact congrArg some (hR _ _ hx)
  | none => rfl

namespace Snapshot

variable {s s' : Snapshot} {R : String → String → Prop}

section Canonical

variable (hR : ∀ r r', R r r' → s.canonical r = s.canonical r')

include hR

theorem canonicalDirective_respelled {d d' : Directive} (h : d.Respelled R d') :
    s.canonicalDirective d = s.canonicalDirective d' := by
  cases h with
  | remove hc => exact congrArg Directive.remove (hR _ _ hc)
  | extend mode hcs => exact congrArg (Directive.extend · mode) (map_eq_map_of_forall₂ hcs hR)
  | insert target after hb =>
    exact congrArg (Directive.insert target · after) (map_eq_map_of_rel hb hR)
  | wrap target hb => exact congrArg (Directive.wrap target) (map_eq_map_of_rel hb hR)
  | same => rfl

theorem canonicalMethod_respelled {m m' : MethodDecl} (h : m.Respelled R m') :
    s.canonicalMethod m = s.canonicalMethod m' := by
  obtain ⟨hdirectives, hrest⟩ := h
  rw [hrest]
  unfold canonicalMethod
  rw [map_eq_map_of_forall₂ hdirectives fun _ _ => canonicalDirective_respelled hR]

theorem canonicalComponent_respelled {c c' : ComponentDecl} (h : c.Respelled R c') :
    s.canonicalComponent c = s.canonicalComponent c' := by
  obtain ⟨hmarkers, hexcluded, hmethods, hrest⟩ := h
  rw [hrest]
  unfold canonicalComponent
  rw [map_eq_map_of_forall₂ hmarkers hR, map_eq_map_of_forall₂ hexcluded hR,
    map_eq_map_of_forall₂ hmethods fun _ _ => canonicalMethod_respelled hR]

theorem canonicalBlueprint_respelled {b b' : BlueprintDecl} (h : b.Respelled R b') :
    s.canonicalBlueprint b = s.canonicalBlueprint b' := by
  obtain ⟨hcomponents, hcomponent, hrest⟩ := h
  rw [hrest]
  unfold canonicalBlueprint
  rw [map_eq_map_of_forall₂ hcomponents hR, map_eq_map_of_rel hcomponent hR]

end Canonical

/-- Components keep their names when references are spelled otherwise. -/
theorem declares_eq_of_respelled (h : s.Respelled R s') : s.declares = s'.declares :=
  declares_eq_of_names (map_eq_map_of_forall₂ h.components fun _ _ hc => by rw [hc.rest])

/-- Contracts have names of their own, none of which is the name of a component. -/
structure ContractsNamed (s : Snapshot) : Prop where
  distinct : (s.components.map fun c => ComponentName.contract c.name).Nodup
  fresh : ∀ c ∈ s.components, s.declares (ComponentName.contract c.name) = false

/-- A reference is kept, or it is the name of a component and becomes that of its contract. -/
def Respells (s : Snapshot) (r r' : String) : Prop :=
  r' = r ∨ s.declares r = true ∧ r' = ComponentName.contract r

/-- The name of its contract tells a component from all others. -/
theorem eq_of_contract_eq (h : s.ContractsNamed) {a b : String} (ha : s.declares a = true)
    (hb : s.declares b = true) (heq : ComponentName.contract a = ComponentName.contract b) :
    a = b := by
  obtain ⟨c, hc, rfl⟩ := declares_iff.1 ha
  obtain ⟨d, hd, rfl⟩ := declares_iff.1 hb
  rw [List.inj_on_of_nodup_map h.distinct hc hd heq]

/-- The name of a component's contract leads back to the component. -/
theorem canonical_contract (h : s.ContractsNamed) {name : String} (hname : s.declares name = true)
    (hne : name ≠ "") : s.canonical (ComponentName.contract name) = name := by
  have hbase := ComponentName.base_ne_empty hne
  have hfresh : s.declares (ComponentName.contract name) = false := by
    obtain ⟨c, hc, rfl⟩ := declares_iff.1 hname
    exact h.fresh c hc
  rw [canonical, hfresh, if_neg Bool.false_ne_true, ComponentName.ofContract_contract hne]
  cases hlong : s.declares (ComponentName.base name ++ ComponentName.suffix) with
  | true =>
    rw [List.find?_cons_of_pos hlong, Option.getD_some]
    refine eq_of_contract_eq h hlong hname ?_
    rw [ComponentName.contract, ComponentName.base_append_suffix hbase]
    rfl
  | false =>
    have hshort : name = ComponentName.base name := by
      refine (ComponentName.eq_base_append_suffix_or_eq_base name).resolve_left fun hlong' => ?_
      rw [← hlong', hname] at hlong
      cases hlong
    rw [List.find?_cons_of_neg (by rw [hlong]; exact Bool.false_ne_true), ← hshort,
      List.find?_cons_of_pos hname, Option.getD_some]

/-- Both spellings of a reference mean one component. -/
theorem canonical_eq_of_respells (h : s.ContractsNamed) {r r' : String} (hr : s.Respells r r')
    (hne : r = "" → r' = r) : s.canonical r = s.canonical r' := by
  rcases hr with rfl | ⟨hdeclared, rfl⟩
  · rfl
  · by_cases hempty : r = ""
    · rw [hne hempty]
    · rw [canonical_contract h hdeclared hempty, canonical, if_pos hdeclared]

end Snapshot

namespace Catalog

variable {s s' : Snapshot}

/-- Spelling references by the names of contracts makes no difference to the catalog or to what is
    reported, as long as no reference to the component without a name is spelled so. -/
theorem ofSnapshot_respelled (hcontracts : s.ContractsNamed)
    (h : s.Respelled (fun r r' => s.Respells r r' ∧ (r = "" → r' = r)) s') :
    ofSnapshot s = ofSnapshot s' ∧ diagnostics s = diagnostics s' := by
  have hR : ∀ r r', s.Respells r r' ∧ (r = "" → r' = r) → s.canonical r = s.canonical r' :=
    fun _ _ hr => Snapshot.canonical_eq_of_respells hcontracts hr.1 hr.2
  have hdeclares := Snapshot.declares_eq_of_respelled h
  have hcomponents :
      s.components.map s.canonicalComponent = s'.components.map s'.canonicalComponent := by
    rw [← Snapshot.canonicalComponent_eq hdeclares]
    exact map_eq_map_of_forall₂ h.components fun _ _ => Snapshot.canonicalComponent_respelled hR
  have hblueprints :
      s.blueprints.map s.canonicalBlueprint = s'.blueprints.map s'.canonicalBlueprint := by
    rw [← Snapshot.canonicalBlueprint_eq hdeclares]
    exact map_eq_map_of_forall₂ h.blueprints fun _ _ => Snapshot.canonicalBlueprint_respelled hR
  have hpointers : s'.pointers = s.pointers := by rw [h.rest]
  have hdeclared : s'.contracts = s.contracts := by rw [h.rest]
  constructor
  · unfold ofSnapshot
    rw [hcomponents, hblueprints, hpointers, hdeclared, Snapshot.canonical_eq hdeclares]
  · unfold diagnostics
    rw [hcomponents, hpointers]

end Catalog

/-! ### Spelled in two ways -/

/-- Components that heal and have a position, and one whose name is nothing but the suffix. -/
def vitals (position suffixed : String) : Snapshot where
  components := [
    { name := "HealthComp"
      markers := [position]
      methods := [(MethodDecl.ofBody "heal" "health = 100f;").directive
        (.insert "update()" (some position) false)] },
    { name := "PosComp", foundational := true },
    { name := "Comp" }]
  blueprints := [{ components := ["HealthComp", suffixed], component := some position }]

theorem vitals_contractsNamed : (vitals "PosComp" "Comp").ContractsNamed where
  distinct := by decide
  fresh := by decide

theorem vitals_respelled : (vitals "PosComp" "Comp").Respelled
    (fun r r' => (vitals "PosComp" "Comp").Respells r r' ∧ (r = "" → r' = r))
    (vitals "Posc" "Compc") := by
  have hkept : ∀ r, (vitals "PosComp" "Comp").Respells r r ∧ (r = "" → r = r) :=
    fun r => ⟨.inl rfl, fun _ => rfl⟩
  have hposition : (vitals "PosComp" "Comp").Respells "PosComp" "Posc" ∧
      ("PosComp" = "" → "Posc" = "PosComp") := ⟨.inr (by decide), by decide⟩
  have hsuffixed : (vitals "PosComp" "Comp").Respells "Comp" "Compc" ∧
      ("Comp" = "" → "Compc" = "Comp") := ⟨.inr (by decide), by decide⟩
  have hheal : List.Forall₂ (Directive.Respelled
      fun r r' => (vitals "PosComp" "Comp").Respells r r' ∧ (r = "" → r' = r))
      [.insert "update()" (some "PosComp") false] [.insert "update()" (some "Posc") false] :=
    .cons (.insert "update()" false (.some hposition)) .nil
  refine ⟨.cons ?_ (.cons ?_ (.cons ?_ .nil)), .cons ?_ .nil, rfl⟩
  · exact ⟨.cons hposition .nil, .nil, .cons ⟨hheal, rfl⟩ .nil, rfl⟩
  · exact ⟨.nil, .nil, .nil, rfl⟩
  · exact ⟨.nil, .nil, .nil, rfl⟩
  · exact ⟨.cons (hkept _) (.cons hsuffixed .nil), .some hposition, rfl⟩

/-- All that refers to a position or to the suffix may name the contract instead. -/
theorem Catalog.ofSnapshot_vitals :
    (vitals "PosComp" "Comp").ContractsNamed ∧
    ofSnapshot (vitals "PosComp" "Comp") = ofSnapshot (vitals "Posc" "Compc") ∧
    diagnostics (vitals "PosComp" "Comp") = diagnostics (vitals "Posc" "Compc") :=
  ⟨vitals_contractsNamed, ofSnapshot_respelled vitals_contractsNamed vitals_respelled⟩

/-- A component without a name, and one with a reference to it. -/
def nameless (reference : String) : Snapshot where
  components := [{ name := "" }, { name := "AComp", markers := [reference] }]

/-- The name of its contract does not lead back to the component without a name. -/
theorem Catalog.ofSnapshot_nameless_ne :
    ((nameless "").components.map (·.name)).Nodup ∧ (nameless "").ContractsNamed ∧
    (nameless "").Respelled (nameless "").Respells (nameless "c") ∧
      ofSnapshot (nameless "") ≠ ofSnapshot (nameless "c") := by
  have hempty : (nameless "").Respells "" "c" := .inr (by decide)
  refine ⟨by decide, ⟨by decide, by decide⟩, ⟨.cons ?_ (.cons ?_ .nil), .nil, rfl⟩, fun heq => ?_⟩
  · exact ⟨.nil, .nil, .nil, rfl⟩
  · exact ⟨.cons hempty .nil, .nil, .nil, rfl⟩
  · have hmarkers := congrArg (fun c => (c.component? "AComp").map (·.markers)) heq
    revert hmarkers
    decide

end EntityWeaver
