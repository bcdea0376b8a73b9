import EntityWeaver.Proofs.Blueprint
import EntityWeaver.Proofs.Finish
import EntityWeaver.Proofs.Pass.Memory

/-! What a pass makes of blueprints, whatever becomes of its units and histories.

    Sinks and stores act in a monad of their own. All that a pass sees of it is what they answer, and
    whatever they answer a pass only ever comes further: it gathers reports, and its base classes gain
    methods. So what was true when an entity was finished is still true at the end of the pass:

        start ──b₁──▶ · ──b₂──▶ · ── … ──▶ end
                           └ entity: the draft of b₂, finished with some history -/

namespace EntityWeaver

theorem Diagnostic.errorCount_eq_zero_iff {reports : List Diagnostic} :
    errorCount reports = 0 ↔ ∀ report ∈ reports, report.isError = false := by
  simp only [errorCount, List.countP_eq_zero, Bool.not_eq_true]

/-- What a pass starts with. -/
theorem Pass.start_eq_ok {settings : Settings} {s : Snapshot} {p : Pass}
    (h : start settings s = .ok p) : p.project = .ofSnapshot settings s ∧
      p.contracts = Contract.all p.project ∧ p.bases = BaseClass.all p.project := by
  unfold start at h
  split at h
  · cases h
  · cases h
  · obtain rfl := Except.ok.inj h
    exact ⟨rfl, rfl, rfl⟩

/-- A pass that has come further. -/
structure Pass.Advanced (p p' : Pass) : Prop where
  project : p'.project = p.project
  contracts : p'.contracts = p.contracts
  bases : BaseClass.AllGrown p.bases p'.bases
  diagnostics : p.diagnostics ⊆ p'.diagnostics

namespace Pass.Advanced

variable {p p' p'' : Pass}

theorem refl (p : Pass) : p.Advanced p := ⟨rfl, rfl, .refl _, List.Subset.refl _⟩

theorem trans (h : p.Advanced p') (h' : p'.Advanced p'') : p.Advanced p'' :=
  ⟨h'.project.trans h.project, h'.contracts.trans h.contracts, h.bases.trans h'.bases,
    List.Subset.trans h.diagnostics h'.diagnostics⟩

theorem report (p : Pass) (reports : List Diagnostic) : p.Advanced (p.report reports) :=
  ⟨rfl, rfl, .refl _, List.subset_append_left _ _⟩

variable {settings : Settings} {s : Snapshot}

theorem project_eq (hstart : start settings s = .ok p) (h : p.Advanced p') :
    p'.project = .ofSnapshot settings s :=
  h.project.trans (start_eq_ok hstart).1

theorem keyed (hstart : start settings s = .ok p) (h : p.Advanced p') : p'.project.catalog.Keyed :=
  h.project_eq hstart ▸ s.keyed_ofSnapshot

end Pass.Advanced

/-- An entity is the finished draft under a heading, of which a pass has all reports. -/
structure Entity.ComposedOf (p : Pass) (e : Entity) (b : BlueprintDecl) (h : Heading) : Prop where
  heading : Heading.of p.project b = .ok h
  reports : (Draft.of p.project h).2 ⊆ p.diagnostics
  finished : ∃ history bases f,
    Draft.FinishedFrom p.project p.contracts (Draft.of p.project h).1 history bases f ∧ f.entity = e ∧
      f.reports ⊆ p.diagnostics ∧ BaseClass.AllGrown f.bases p.bases

/-- An entity stays what it is when the pass comes further. -/
theorem Entity.ComposedOf.mono {p p' : Pass} {e : Entity} {b : BlueprintDecl} {h : Heading}
    (hadvanced : p.Advanced p') (he : e.ComposedOf p b h) : e.ComposedOf p' b h := by
  obtain ⟨hheading, hreports, history, bases, f, hfinished, rfl, hmistakes, hbases⟩ := he
  refine ⟨?_, ?_, history, bases, f, ?_, rfl, ?_, hbases.trans hadvanced.bases⟩
  · rwa [hadvanced.project]
  · rw [hadvanced.project]
    exact List.Subset.trans hreports hadvanced.diagnostics
  · rwa [hadvanced.project, hadvanced.contracts]
  · exact List.Subset.trans hmistakes hadvanced.diagnostics

/-- In a pass without mistakes the fields of entities have not been reported. -/
theorem Entity.ComposedOf.not_reportsDuplicate {p : Pass} {e : Entity} {b : BlueprintDecl}
    {h : Heading} (he : e.ComposedOf p b h) (hok : Diagnostic.errorCount p.diagnostics = 0) :
    ∀ report ∈ (Draft.of p.project h).2, ¬FieldSet.ReportsDuplicate h.name report := by
  rintro report hreport ⟨_, _, _, _, rfl⟩
  cases Diagnostic.errorCount_eq_zero_iff.1 hok _ (he.reports hreport)

namespace PassM

variable {m : Type → Type} [Monad m] [MonadAttach m] {α β : Type} {p p' : Pass}

/-- A computation can succeed on the way from one pass to another. -/
def Leads (x : PassM m α) (p : Pass) (a : α) (p' : Pass) : Prop :=
  MonadAttach.CanReturn (x.run.run p) (.ok a, p')

variable [LawfulMonad m] [LawfulMonadAttach m]

theorem leads_bind {x : PassM m α} {f : α → PassM m β} {b : β} (h : Leads (x >>= f) p b p') :
    ∃ a mid, Leads x p a mid ∧ Leads (f a) mid b p' := by
  rw [Leads, ExceptT.run_bind, StateT.run_bind] at h
  obtain ⟨⟨ended, mid⟩, hx, hf⟩ := LawfulMonadAttach.canReturn_bind_imp' h
  cases ended with
  | ok a => exact ⟨a, mid, hx, hf⟩
  | error e => cases LawfulMonadAttach.eq_of_canReturn_pure hf

theorem leads_pure {a b : α} (h : Leads (pure a : PassM m α) p b p') : b = a ∧ p' = p := by
  cases LawfulMonadAttach.eq_of_canReturn_pure h
  exact ⟨rfl, rfl⟩

theorem not_leads_throw {e : PassError} {a : α} : ¬Leads (throw e : PassM m α) p a p' := by
  intro h
  cases LawfulMonadAttach.eq_of_canReturn_pure h

/-- What does not touch the way a computation ends. -/
theorem leads_lift {x : StateT Pass m α} {a : α} (h : Leads (ExceptT.lift x) p a p') :
    MonadAttach.CanReturn (x.run p) (a, p') := by
  have hrun : (ExceptT.lift x : PassM m α).run.run p =
      (fun r => (.ok r.1, r.2)) <$> x.run p := by simp
  rw [Leads, hrun] at h
  obtain ⟨_, hx, heq⟩ := LawfulMonadAttach.canReturn_map_imp' h
  cases heq
  exact hx

/-- A computation that starts with a look at the pass. -/
theorem leads_get_bind {f : Pass → PassM m β} {b : β} (h : Leads (get >>= f) p b p') :
    Leads (f p) p b p' := by
  obtain ⟨_, _, hget, hf⟩ := leads_bind h
  cases LawfulMonadAttach.eq_of_canReturn_pure (leads_lift hget)
  exact hf

/-- A computation that starts with reports. -/
theorem leads_report_bind {reports : List Diagnostic} {f : Unit → PassM m β} {b : β}
    (h : Leads (report reports >>= f) p b p') : Leads (f ()) (p.report reports) b p' := by
  obtain ⟨_, _, hreport, hf⟩ := leads_bind h
  cases LawfulMonadAttach.eq_of_canReturn_pure (leads_lift hreport)
  exact hf

/-- A computation that starts from another pass. -/
theorem leads_set_bind {q : Pass} {f : PUnit → PassM m β} {b : β}
    (h : Leads (set q >>= f) p b p') : Leads (f ⟨⟩) q b p' := by
  obtain ⟨_, _, hset, hf⟩ := leads_bind h
  cases LawfulMonadAttach.eq_of_canReturn_pure (leads_lift hset)
  exact hf

/-- What is done outside a pass leaves the pass alone. -/
theorem leads_outside_bind {action : m α} {f : α → PassM m β} {b : β}
    (h : Leads (outside action >>= f) p b p') : ∃ a, Leads (f a) p b p' := by
  have hrun : (StateT.lift action : StateT Pass m α).run p = (·, p) <$> action := by simp
  obtain ⟨a, _, houtside, hf⟩ := leads_bind h
  have hlift := leads_lift houtside
  rw [hrun] at hlift
  obtain ⟨_, -, heq⟩ := LawfulMonadAttach.canReturn_map_imp' hlift
  cases heq
  exact ⟨a, hf⟩

theorem leads_historyOf {store : HistoryStore m} {d : Draft} {history : List Revision}
    (h : Leads (historyOf store d) p history p') : p' = p := by
  unfold historyOf at h
  split at h
  · exact (leads_pure h).2
  · obtain ⟨answer, h⟩ := leads_outside_bind h
    cases answer with
    | error e => exact absurd h not_leads_throw
    | ok history => exact (leads_pure h).2

/-- Composing one blueprint gives an entity that is the finished draft under its heading, or else a
    mistake is reported. -/
theorem leads_composeOne {store : HistoryStore m} {b : BlueprintDecl} {h : Heading}
    {entity : Option Entity} (hheading : Heading.of p.project b = .ok h)
    (hrun : Leads (composeOne store h) p entity p') : p.Advanced p' ∧
      ((∃ report ∈ p'.diagnostics, report.isError = true) ∧ entity = none ∨
        ∃ e, entity = some e ∧ e.ComposedOf p' b h) := by
  unfold composeOne at hrun
  have hdraft := leads_get_bind hrun
  rcases hof : Draft.of p.project h with ⟨d, reports⟩
  dsimp only at hdraft
  rw [hof] at hdraft
  have hvalidate := leads_report_bind hdraft
  have hdrafted := Pass.Advanced.report p reports
  split at hvalidate
  · next e _ =>
    have hend := leads_report_bind hvalidate
    obtain ⟨rfl, rfl⟩ := leads_pure hend
    refine ⟨hdrafted.trans (.report _ _), .inl ⟨⟨.ofError e h.blueprint.anchor, ?_, rfl⟩, rfl⟩⟩
    exact List.mem_append_right _ (List.mem_singleton_self _)
  · obtain ⟨history, _, hhistory, hend⟩ := leads_bind hvalidate
    obtain rfl := leads_historyOf hhistory
    have hfinish := leads_get_bind hend
    split at hfinish
    · exact absurd hfinish not_leads_throw
    · next f hf =>
      have hset := leads_set_bind hfinish
      obtain ⟨rfl, rfl⟩ := leads_pure hset
      have hfinished : Draft.FinishedFrom p.project p.contracts (Draft.of p.project h).1 history
          p.bases f := by
        rw [hof]
        exact Draft.finish?_eq_some hf
      refine ⟨⟨rfl, rfl, hfinished.grown_bases, ?_⟩, .inr ⟨f.entity, rfl, hheading, ?_, ?_⟩⟩
      · exact List.Subset.trans hdrafted.diagnostics (List.subset_append_left _ _)
      · show (Draft.of p.project h).2 ⊆ p.diagnostics ++ reports ++ f.reports
        rw [hof]
        exact List.Subset.trans (List.subset_append_right _ _) (List.subset_append_left _ _)
      · exact ⟨history, p.bases, f, hfinished, rfl, List.subset_append_right _ _, .refl _⟩

section ComposeAll

variable {store : HistoryStore m} {taken : List String} {b : BlueprintDecl}
  {blueprints before rest : List BlueprintDecl} {h : Heading} {entities : List Entity}

/-- The first of some blueprints has no heading, or one whose name is in use, or is composed. -/
theorem leads_composeAll_cons (hrun : Leads (composeAll store taken (b :: rest)) p entities p') :
    (∃ e, Heading.of p.project b = .error e ∧
        Leads (composeAll store taken rest) (p.report [.ofError e b.anchor]) entities p') ∨
      ∃ h, Heading.of p.project b = .ok h ∧
        (h.name ∈ taken ∧ Leads (composeAll store taken rest) p entities p' ∨
          h.name ∉ taken ∧ ∃ entity mid others, Leads (composeOne store h) p entity mid ∧
            Leads (composeAll store (h.name :: taken) rest) mid others p' ∧
              entities = entity.toList ++ others) := by
  rw [composeAll] at hrun
  have hhead := leads_get_bind hrun
  split at hhead
  · next e he => exact .inl ⟨e, he, leads_report_bind hhead⟩
  · next h hh =>
    refine .inr ⟨h, hh, ?_⟩
    split at hhead
    · next hname => exact .inl ⟨hname, hhead⟩
    · next hname =>
      obtain ⟨entity, mid, hfirst, hothers⟩ := leads_bind hhead
      obtain ⟨others, _, hrest, hend⟩ := leads_bind hothers
      obtain ⟨rfl, rfl⟩ := leads_pure hend
      exact .inr ⟨hname, entity, mid, others, hfirst, hrest, rfl⟩

/-- Composing blueprints gives entities each of which is the finished draft of one. -/
theorem leads_composeAll (hrun : Leads (composeAll store taken blueprints) p entities p') :
    p.Advanced p' ∧ ∀ e ∈ entities, ∃ b ∈ blueprints, ∃ h, e.ComposedOf p' b h := by
  induction blueprints generalizing taken p entities with
  | nil =>
    obtain ⟨rfl, rfl⟩ := leads_pure hrun
    exact ⟨.refl _, fun _ he => absurd he List.not_mem_nil⟩
  | cons b rest ih =>
    have hlater : ∀ {es : List Entity}, (∀ e ∈ es, ∃ b ∈ rest, ∃ h, e.ComposedOf p' b h) →
        ∀ e ∈ es, ∃ b' ∈ b :: rest, ∃ h, e.ComposedOf p' b' h := fun hes e he =>
      (hes e he).imp fun _ => And.imp_left (List.mem_cons_of_mem _)
    rcases leads_composeAll_cons hrun with ⟨e, -, hrest⟩ | ⟨h, hh, ⟨-, hrest⟩ | ⟨-, hcomposed⟩⟩
    · obtain ⟨hadvanced, hes⟩ := ih hrest
      exact ⟨(Pass.Advanced.report p _).trans hadvanced, hlater hes⟩
    · obtain ⟨hadvanced, hes⟩ := ih hrest
      exact ⟨hadvanced, hlater hes⟩
    · obtain ⟨entity, mid, others, hfirst, hrest, rfl⟩ := hcomposed
      obtain ⟨hstep, hentity⟩ := leads_composeOne hh hfirst
      obtain ⟨hadvanced, hes⟩ := ih hrest
      refine ⟨hstep.trans hadvanced, fun e he => ?_⟩
      rcases List.mem_append.1 he with he | he
      · rcases hentity with ⟨-, rfl⟩ | ⟨_, rfl, hcomposed⟩
        · cases he
        · obtain rfl := List.mem_singleton.1 he
          exact ⟨b, List.mem_cons_self, h, hcomposed.mono hadvanced⟩
      · exact hlater hes e he

/-- The first blueprint whose entity has a name is composed, unless a mistake is reported. -/
theorem exists_composedOf
    (hrun : Leads (composeAll store taken (before ++ b :: rest)) p entities p')
    (hheading : Heading.of p.project b = .ok h) (hfree : h.name ∉ taken)
    (hfirst : ∀ b' ∈ before, ∀ h', Heading.of p.project b' = .ok h' → h'.name ≠ h.name) :
    (∃ report ∈ p'.diagnostics, report.isError = true) ∨ ∃ e ∈ entities, e.ComposedOf p' b h := by
  induction before generalizing taken p entities with
  | nil =>
    rcases leads_composeAll_cons hrun with ⟨e, he, -⟩ | ⟨h', hh', ⟨hname, -⟩ | ⟨-, hcomposed⟩⟩
    · cases hheading.symm.trans he
    · cases hheading.symm.trans hh'
      exact absurd hname hfree
    · cases hheading.symm.trans hh'
      obtain ⟨entity, mid, others, hone, hrest, rfl⟩ := hcomposed
      obtain ⟨-, ⟨⟨report, hreport, herror⟩, -⟩ | ⟨e, rfl, he⟩⟩ := leads_composeOne hheading hone
      · exact .inl ⟨report, (leads_composeAll hrest).1.diagnostics hreport, herror⟩
      · exact .inr ⟨e, List.mem_cons_self, he.mono (leads_composeAll hrest).1⟩
  | cons b' before ih =>
    have hfirst' : ∀ b'' ∈ before, ∀ h', Heading.of p.project b'' = .ok h' → h'.name ≠ h.name :=
      fun b'' hb'' => hfirst b'' (List.mem_cons_of_mem _ hb'')
    rcases leads_composeAll_cons hrun with ⟨e, -, hrest⟩ | ⟨h', hh', ⟨-, hrest⟩ | ⟨-, hcomposed⟩⟩
    · exact ih hrest hheading hfree hfirst'
    · exact ih hrest hheading hfree hfirst'
    · obtain ⟨entity, mid, others, hone, hrest, rfl⟩ := hcomposed
      have hproject := (leads_composeOne hh' hone).1.project
      have hfree' : h.name ∉ h'.name :: taken := fun hmem => (List.mem_cons.1 hmem).elim
        (fun heq => hfirst b' List.mem_cons_self h' hh' heq.symm) hfree
      rw [← hproject] at hheading hfirst'
      refine (ih hrest hheading hfree' hfirst').imp_right ?_
      exact fun ⟨e, he, hcomposed⟩ => ⟨e, List.mem_append_right _ he, hcomposed⟩

end ComposeAll

section Rounds

variable {sink : UnitSink m} {store : HistoryStore m}

theorem leads_emit {u : SourceUnit} {x : Unit} (h : Leads (emit sink u) p x p') : p.Advanced p' := by
  unfold emit at h
  obtain ⟨answer, h⟩ := leads_outside_bind h
  cases answer with
  | error e => exact absurd h not_leads_throw
  | ok _ =>
    cases LawfulMonadAttach.eq_of_canReturn_pure (leads_lift h)
    exact ⟨rfl, rfl, .refl _, List.Subset.refl _⟩

theorem leads_emitAll {us : List SourceUnit} {x : Unit} (h : Leads (emitAll sink us) p x p') :
    p.Advanced p' := by
  induction us generalizing p with
  | nil =>
    obtain ⟨-, rfl⟩ := leads_pure h
    exact .refl _
  | cons u us ih =>
    have hcons : emitAll sink (u :: us) =
        (emit sink u >>= fun _ => emitAll sink us : PassM m Unit) := rfl
    rw [hcons] at h
    obtain ⟨_, _, hfirst, hrest⟩ := leads_bind h
    exact (leads_emit hfirst).trans (ih hrest)

/-- Both rounds compose the blueprints in between. -/
theorem leads_composeAll_of_runRounds {x : Unit} (h : Leads (runRounds sink store) p x p') :
    ∃ q q', p.Advanced q ∧ Leads (composeAll store [] p.project.catalog.blueprints) q p'.entities q' ∧
      q'.Advanced p' := by
  unfold runRounds runRound emitContracts emitEntities at h
  obtain ⟨_, first, hcontracts, hsecond⟩ := leads_bind h
  have hfirst := leads_emitAll (leads_get_bind hcontracts)
  have hround := leads_get_bind hsecond
  obtain ⟨entities, composed, hcompose, hemit⟩ := leads_bind hround
  have hunits := leads_get_bind hemit
  obtain ⟨_, emitted, hemitAll, hset⟩ := leads_bind hunits
  cases LawfulMonadAttach.eq_of_canReturn_pure (leads_lift hset)
  rw [hfirst.project] at hcompose
  have hend : emitted.Advanced { emitted with entities } :=
    ⟨rfl, rfl, .refl _, List.Subset.refl _⟩
  exact ⟨first, composed, hfirst, hcompose, (leads_emitAll hemitAll).trans hend⟩

/-- The entities of a pass that got through both rounds are finished drafts of blueprints. -/
theorem leads_runRounds {x : Unit} (h : Leads (runRounds sink store) p x p') :
    p.Advanced p' ∧ ∀ e ∈ p'.entities,
      ∃ b ∈ p.project.catalog.blueprints, ∃ h, e.ComposedOf p' b h := by
  obtain ⟨q, q', hbefore, hcompose, hafter⟩ := leads_composeAll_of_runRounds h
  obtain ⟨hadvanced, hentities⟩ := leads_composeAll hcompose
  refine ⟨(hbefore.trans hadvanced).trans hafter, fun e he => ?_⟩
  obtain ⟨b, hb, h, hcomposed⟩ := hentities e he
  exact ⟨b, hb, h, hcomposed.mono hafter⟩

/-- In a pass without mistakes the first blueprint whose entity has a name becomes an entity. -/
theorem exists_entity_of_runRounds {x : Unit} (h : Leads (runRounds sink store) p x p')
    (hok : Diagnostic.errorCount p'.diagnostics = 0) {before after : List BlueprintDecl}
    {b : BlueprintDecl} (hblueprints : p.project.catalog.blueprints = before ++ b :: after)
    {heading : Heading} (hheading : Heading.of p.project b = .ok heading)
    (hfirst : ∀ b' ∈ before, ∀ h', Heading.of p.project b' = .ok h' → h'.name ≠ heading.name) :
    ∃ e ∈ p'.entities, e.ComposedOf p' b heading := by
  obtain ⟨q, q', hbefore, hcompose, hafter⟩ := leads_composeAll_of_runRounds h
  rw [hblueprints] at hcompose
  rw [← hbefore.project] at hheading hfirst
  rcases exists_composedOf hcompose hheading List.not_mem_nil hfirst with
    ⟨report, hreport, herror⟩ | ⟨e, he, hcomposed⟩
  · have hclean := Diagnostic.errorCount_eq_zero_iff.1 hok _ (hafter.diagnostics hreport)
    cases hclean.symm.trans herror
  · exact ⟨e, he, hcomposed.mono hafter⟩

end Rounds

end PassM

/-- What succeeds in memory can succeed. -/
theorem PassM.leads_of_exec {α : Type} {x : PassM Memory α} {s s' : MemoryPass} {a : α}
    (h : exec x s = (.ok a, s')) : Leads x s.pass a s'.pass := by
  refine ⟨s.units, s'.units, s.histories, s'.histories, ?_⟩
  unfold exec Memory.from at h
  rcases hrun : ((x.run.run s.pass).run s.units).run s.histories with ⟨⟨⟨_, _⟩, _⟩, _⟩
  rw [hrun] at h
  cases h
  rfl

end EntityWeaver
