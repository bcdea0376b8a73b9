import EntityWeaver.Proofs.EntityStream.Synchronization

/-! Which of the interpolated fields are fed by network data.

    An entity moves its interpolated fields to the values in their shadows. Two choices of fields meet
    there, made by different flags:

        moved, sent by hand     interpolated, of type `float`
        sent, shadow stored     not transient, not static, serialized, synchronized

    Nothing puts the first choice inside the second one. A field that is interpolated but excluded from
    the network is sent by hand all the same, and moves to a shadow that no network data reaches. -/

namespace EntityWeaver

namespace EntityStream

variable {s : EntityStream} {m : MethodDecl} {history : List Revision}

/-! ### The fields that move -/

theorem jump_inj {a b : String} : jump a = jump b ↔ a = b := by
  refine ⟨fun h => ?_, congrArg jump⟩
  have hchars := congrArg String.toList h
  simp only [jump, targetShadow, String.toList_append, List.append_assoc] at hchars
  have hlength := congrArg List.length hchars
  simp only [List.length_append] at hlength
  exact String.toList_inj.1 (List.append_inj_left hchars (by omega))

theorem getLast?_toList_append {a b : String} {c : Char} (h : b.toList.getLast? = some c) :
    (a ++ b).toList.getLast? = some c := by
  rw [String.toList_append, List.getLast?_append, h]
  rfl

theorem getLast?_jump (name : String) : (jump name).toList.getLast? = some 't' :=
  getLast?_toList_append (getLast?_toList_append (by decide))

theorem getLast?_between (f : MergedField) : (between f).toList.getLast? = some ')' := by
  unfold between
  dsimp only
  split
  · exact getLast?_toList_append (by decide)
  · exact getLast?_toList_append (by decide)

/-- The expressions that put the interpolated fields between two updates. -/
def steering (s : EntityStream) : List String :=
  "float timeSinceUpdate = Time.timeSinceMillis(lastUpdated)" ::
    "float alpha = Math.min(timeSinceUpdate / updateSpacing, 2f)" ::
    s.fields.syncValues.map fun f => f.name ++ " = " ++ between f

theorem texts_interpolate (h : s.fields.syncValues ≠ []) : s.interpolate.code.texts =
    "if(lastUpdated != 0 && updateSpacing != 0) \x7b" :: (s.steering.map (· ++ ";") ++
      "\x7d else if(lastUpdated != 0) \x7b" :: ((s.syncNames.map jump).map (· ++ ";") ++ ["\x7d"])) := by
  rw [interpolate, if_neg h]
  simp [steering, syncNames, MergedField.name, Function.comp_def]

/-- A field moves to its shadow just if it is interpolated. -/
theorem jump_mem_interpolate_iff {name : String} :
    jump name ++ ";" ∈ s.interpolate.code.texts ↔ name ∈ s.syncNames := by
  by_cases hnone : s.fields.syncValues = []
  · rw [interpolate, if_pos hnone, syncNames, hnone]
    simp
  · have hsteering : jump name ++ ";" ∉ s.steering.map (· ++ ";") := by
      intro hmem
      obtain ⟨text, htext, heq⟩ := List.mem_map.1 hmem
      have hlast : text.toList.getLast? = some 't' := by
        rw [(String.append_left_inj _).1 heq, getLast?_jump]
      rw [steering, List.mem_cons, List.mem_cons, List.mem_map] at htext
      rcases htext with rfl | rfl | ⟨f, -, rfl⟩
      · simp at hlast
      · simp at hlast
      · rw [getLast?_toList_append (getLast?_between f)] at hlast
        cases hlast
    have hbrace (line : String) (h : line.toList.getLast? ≠ some ';') : jump name ++ ";" ≠ line := by
      rintro rfl
      exact h (getLast?_toList_append rfl)
    have hopen := hbrace "if(lastUpdated != 0 && updateSpacing != 0) \x7b" (by decide)
    have hnext := hbrace "\x7d else if(lastUpdated != 0) \x7b" (by decide)
    have hclose := hbrace "\x7d" (by decide)
    rw [texts_interpolate hnone]
    simp only [List.mem_cons, List.mem_append, hopen, hnext, hclose, hsteering, List.not_mem_nil,
      false_or, or_false]
    simp [jump_inj]

theorem texts_writeSyncManual (buffer : String) : (s.writeSyncManual buffer).texts =
    s.syncNames.map fun name => buffer ++ ".put(this." ++ name ++ ");" := by
  have hclose : ")" ++ ";" = ");" := rfl
  simp [writeSyncManual, Function.comp_def, ← hclose, String.append_assoc]

/-- The fields that move are the interpolated ones that can be. -/
theorem name_mem_syncNames_iff {scope : FieldSet.Scope} (hnames : s.fields.names.Nodup)
    (hshadows : s.fields.ListsShadows scope) (hsynced : scope.synced = true) {f : MergedField}
    (hf : f ∈ s.fields.fields) :
    f.name ∈ s.syncNames ↔ f.decl.isSyncValue = true ∧ f.decl.type = "float" := by
  have hvalue : f.name ∈ s.syncNames ↔ s.fields.isSyncValue f.name = true := by
    simp [syncNames, FieldSet.isSyncValue, MergedField.name]
  rw [hvalue, FieldSet.isSyncValue_iff hnames hshadows hf, FieldSet.gainsShadows, hsynced,
    Bool.true_and, Bool.and_eq_true, beq_iff_eq]

/-! ### The fields that are sent -/

/-- Among the steps is one that says what a field is to move to. -/
def StoresTarget (steps : List SyncStep) (name : String) : Prop :=
  SyncStep.keepTarget name ∈ steps ∨ Fills steps (targetShadow name)

theorem Receives.storesTarget {isLocal : Bool} {w : ValueWrite} {steps : List SyncStep}
    (h : s.Receives isLocal w steps) (hshadow : s.fields.isSyncValue w.field = true) :
    StoresTarget steps w.field := by
  cases h with
  | stored _ hplain => rw [hplain] at hshadow; cases hshadow
  | moved => exact .inr ⟨_, List.mem_cons_of_mem _ List.mem_cons_self, rfl⟩
  | dropped _ hplain => rw [hplain] at hshadow; cases hshadow
  | held => exact .inl (by simp)

theorem storesTarget_flatten {reads : List (List SyncStep)} {steps : List SyncStep} {name : String}
    (hsteps : steps ∈ reads) (h : StoresTarget steps name) : StoresTarget reads.flatten name := by
  rcases h with h | ⟨v, hv, htarget⟩
  · exact .inl (List.mem_flatten_of_mem hsteps h)
  · exact .inr ⟨v, List.mem_flatten_of_mem hsteps hv, htarget⟩

/-- A field is sent just if it is serialized and synchronized. -/
theorem name_sent_iff (hnames : s.fields.names.Nodup) {writes : List ValueWrite}
    (hsends : List.Forall₂ s.Sends s.syncedFields writes) {f : MergedField}
    (hf : f ∈ s.fields.fields) : f.name ∈ writes.map (·.field) ↔
      f.decl.isSerialized = true ∧ f.decl.sync.noSync = false := by
  rw [← map_eq_map_of_forall₂ hsends fun d w (h : s.Sends d w) => h.field.symm, List.mem_map]
  constructor
  · rintro ⟨d, hd, hname⟩
    obtain ⟨g, hg, rfl⟩ := exists_of_mem_syncedFields hd
    rw [← List.inj_on_of_nodup_map hnames hg hf hname]
    exact (mem_syncedFields_iff.1 hd).2
  · intro h
    exact ⟨f.decl, mem_syncedFields_iff.2 ⟨List.mem_map_of_mem hf, h⟩, rfl⟩

/-- What is sent of a shadowed field is what it is to move to. -/
theorem storesTarget_of_sent {isLocal : Bool} {writes : List ValueWrite}
    {reads : List (List SyncStep)} (hreceives : List.Forall₂ (s.Receives isLocal) writes reads)
    {name : String} (hname : name ∈ writes.map (·.field))
    (hshadow : s.fields.isSyncValue name = true) : StoresTarget reads.flatten name := by
  obtain ⟨w, hw, rfl⟩ := List.mem_map.1 hname
  obtain ⟨steps, hsteps, hreceived⟩ := exists_of_forall₂ hreceives hw
  exact storesTarget_flatten hsteps (hreceived.storesTarget hshadow)

/-! ### The code of the methods -/

theorem codeFor_writeSyncManual {code : InjectedCode} (hm : m.name = "writeSyncManual")
    (h : s.codeFor m history = .ok (some code)) : ∃ buffer,
      m.params.head?.map (·.name) = some buffer ∧ code.code = s.writeSyncManual buffer := by
  cases carries_of_codeFor h
  case writeSyncManual buffer hname hparam => exact ⟨buffer, hparam, rfl⟩
  all_goals simp_all

theorem codeFor_interpolate {code : InjectedCode} (hm : m.name = "interpolate")
    (h : s.codeFor m history = .ok (some code)) : code = s.interpolate := by
  cases carries_of_codeFor h
  case interpolate hname => rfl
  all_goals simp_all

/-- The fields that move, and are sent by hand, are the interpolated ones of type `float`; those that
    are sent are the serialized ones that are not excluded from the network. So network data feeds
    every field that moves just if each of the interpolated fields is serialized and not excluded. -/
theorem interpolated_sent_iff {scope : FieldSet.Scope} {components : List ComponentDecl}
    {writing reading buffering moving : MethodDecl} {written read buffered moved : InjectedCode}
    (hfields : s.fields = (FieldSet.merge scope components).1) (hsynced : scope.synced = true)
    (hwriting : writing.name = "writeSync") (hreading : reading.name = "readSync")
    (hbuffering : buffering.name = "writeSyncManual") (hmoving : moving.name = "interpolate")
    (hwritten : s.codeFor writing history = .ok (some written))
    (hread : s.codeFor reading history = .ok (some read))
    (hbuffered : s.codeFor buffering history = .ok (some buffered))
    (hmoved : s.codeFor moving history = .ok (some moved)) :
    ∃ out inp buffer, ∃ writes : List ValueWrite, ∃ reads : Bool → List (List SyncStep),
      writing.params.head?.map (·.name) = some out ∧ reading.params.head?.map (·.name) = some inp ∧
      buffering.params.head?.map (·.name) = some buffer ∧
      (∀ name, jump name ++ ";" ∈ moved.code.texts ↔ name ∈ s.syncNames) ∧
      buffered.code.texts = s.syncNames.map (fun name => buffer ++ ".put(this." ++ name ++ ");") ∧
      written.code.texts = writes.map (fun w => w.text out ++ ";") ∧
      (∀ isLocal, read.code.performed isLocal =
        (arrival ++ (reads isLocal).flatten.map (·.text inp)).map (· ++ ";")) ∧
      (∀ f ∈ s.fields.fields,
        (f.name ∈ s.syncNames ↔ f.decl.isSyncValue = true ∧ f.decl.type = "float") ∧
        (f.name ∈ writes.map (·.field) ↔
          f.decl.isSerialized = true ∧ f.decl.sync.noSync = false)) ∧
      ((∀ name ∈ s.syncNames, name ∈ writes.map (·.field) ∧
          ∀ isLocal, StoresTarget (reads isLocal).flatten name) ↔
        ∀ f ∈ s.fields.fields, f.decl.isSyncValue = true → f.decl.type = "float" →
          f.decl.isSerialized = true ∧ f.decl.sync.noSync = false) := by
  have hnames : s.fields.names.Nodup := hfields ▸ FieldSet.names_nodup_merge scope components
  have hshadows : s.fields.ListsShadows scope := hfields ▸ FieldSet.listsShadows_merge scope components
  obtain ⟨out, hout, hwrite⟩ := codeFor_writeSync hwriting hwritten
  obtain ⟨inp, hinp, hreadSync⟩ := codeFor_readSync hreading hread
  obtain ⟨buffer, hbuffer, hmanual⟩ := codeFor_writeSyncManual hbuffering hbuffered
  obtain ⟨writes, hsent, htexts⟩ := texts_writeSync hwrite
  obtain ⟨rs, hreceived, hperformed⟩ := performed_readSync hreadSync
  have hsends : List.Forall₂ s.Sends s.syncedFields writes :=
    (mapM_eq_ok.1 hsent).imp fun _ _ => sends_of_valueWrite
  have hmoves {f : MergedField} (hf : f ∈ s.fields.fields) :
      f.name ∈ s.syncNames ↔ f.decl.isSyncValue = true ∧ f.decl.type = "float" :=
    name_mem_syncNames_iff hnames hshadows hsynced hf
  have hgoes {f : MergedField} (hf : f ∈ s.fields.fields) : f.name ∈ writes.map (·.field) ↔
      f.decl.isSerialized = true ∧ f.decl.sync.noSync = false := name_sent_iff hnames hsends hf
  refine ⟨out, inp, buffer, writes, fun isLocal => stepsOf isLocal rs, hout, hinp, hbuffer,
    fun name => ?_, ?_, htexts, hperformed, fun f hf => ⟨hmoves hf, hgoes hf⟩, ?_, ?_⟩
  · rw [codeFor_interpolate hmoving hmoved]
    exact jump_mem_interpolate_iff
  · rw [hmanual, texts_writeSyncManual]
  · intro hall f hf hvalue hfloat
    exact (hgoes hf).1 (hall f.name ((hmoves hf).2 ⟨hvalue, hfloat⟩)).1
  · intro hall name hname
    obtain ⟨f, hf, rfl⟩ := List.mem_map.1 hname
    have hfield := ((FieldSet.mem_syncValues_iff hnames hshadows).1 hf).1
    obtain ⟨hvalue, hfloat⟩ := (hmoves hfield).1 hname
    have hwritten := (hgoes hfield).2 (hall f hfield hvalue hfloat)
    refine ⟨hwritten, fun isLocal => ?_⟩
    have hshadow : s.fields.isSyncValue f.name = true :=
      List.any_eq_true.2 ⟨f, hf, beq_self_eq_true _⟩
    exact storesTarget_of_sent (forall₂_receives hnames hsent hreceived isLocal) hwritten hshadow

/-- The rotation of a turret is interpolated and sent. -/
def turretRotation : FieldDecl where
  name := "rotation"
  type := "float"
  sync := { interpolate := some .angular }

/-- The recoil of a turret is interpolated as well, but excluded from the network. -/
def turretRecoil : FieldDecl where
  name := "recoil"
  type := "float"
  sync := { interpolate := some .linear, noSync := true }

def turretScope : FieldSet.Scope := ⟨"Turret", none, true, none⟩

def turretComponents : List ComponentDecl :=
  [{ name := "TurretComp", fields := [turretRotation, turretRecoil] }]

def turretStream : EntityStream where
  entity := "Turret"
  codecs := {}
  fields := (FieldSet.merge turretScope turretComponents).1
  synced := true

theorem serialized_turretStream : turretStream.serialized = [turretRecoil, turretRotation] := by
  have hdecls : turretStream.fields.decls = [turretRotation, turretRecoil] := rfl
  rw [serialized, hdecls]
  simp [FieldDecl.serialized, FieldDecl.isSerialized, FieldDecl.isStatic, List.mergeSort,
    turretRotation, turretRecoil]

theorem syncedFields_turretStream : turretStream.syncedFields = [turretRotation] := by
  show turretStream.serialized.filter _ = _
  rw [serialized_turretStream]
  rfl

theorem syncValues_turretStream : turretStream.fields.syncValues =
    [⟨turretRecoil, "TurretComp", false⟩, ⟨turretRotation, "TurretComp", false⟩] := by
  have hshadowed : turretStream.fields.shadowed.filterMap turretStream.fields.get? =
    [⟨turretRotation, "TurretComp", false⟩, ⟨turretRecoil, "TurretComp", false⟩] := rfl
  rw [FieldSet.syncValues, hshadowed]
  simp [List.mergeSort, MergedField.name, turretRotation, turretRecoil]

theorem codeFor_writeSync_turretStream : turretStream.codeFor (unitMethod "writeSync") [] =
    .ok (some ⟨⟨[⟨0, "io.f(this.rotation);"⟩], 0⟩, []⟩) := by
  show (turretStream.writeSync "io").map _ = _
  rw [writeSync, sent, syncedFields_turretStream]
  rfl

theorem codeFor_writeSyncManual_turretStream :
    turretStream.codeFor (unitMethod "writeSyncManual") [] =
      .ok (some ⟨⟨[⟨0, "io.put(this.recoil);"⟩, ⟨0, "io.put(this.rotation);"⟩], 0⟩, []⟩) := by
  show Except.ok (some (InjectedCode.mk (turretStream.writeSyncManual "io") [])) = _
  rw [writeSyncManual, syncNames, syncValues_turretStream]
  rfl

/-- The code that reads a turret from the network. -/
theorem exists_readSync_turretStream :
    ∃ read, turretStream.codeFor (unitMethod "readSync") [] = .ok (some read) := by
  have hreceived : ∃ rs, turretStream.received = .ok rs := by
    rw [received, syncedFields_turretStream]
    exact ⟨_, rfl⟩
  obtain ⟨rs, hrs⟩ := hreceived
  show ∃ read, (turretStream.readSync "io").map some = .ok (some read)
  rw [readSync, hrs]
  exact ⟨_, rfl⟩

/-- The recoil of a turret is sent by hand and moves, and no other code sends it or stores where it is
    to move to. -/
theorem interpolated_sent_iff_turret :
    (∀ name, jump name ++ ";" ∈ turretStream.interpolate.code.texts ↔
        name ∈ turretStream.syncNames) ∧
      ∃ writes : List ValueWrite, ∃ reads : Bool → List (List SyncStep),
        ["io.f(this.rotation);"] = writes.map (fun w => w.text "io" ++ ";") ∧
        "recoil" ∈ turretStream.syncNames ∧ "recoil" ∉ writes.map (·.field) ∧
        "rotation" ∈ turretStream.syncNames ∧ "rotation" ∈ writes.map (·.field) ∧
        ¬∀ name ∈ turretStream.syncNames, name ∈ writes.map (·.field) ∧
          ∀ isLocal, StoresTarget (reads isLocal).flatten name := by
  obtain ⟨read, hread⟩ := exists_readSync_turretStream
  have hmoving : turretStream.codeFor { name := "interpolate" } [] =
    .ok (some turretStream.interpolate) := rfl
  obtain ⟨out, inp, buffer, writes, reads, hout, -, -, hmoved, -, hwritten, -, hfields, hfed⟩ :=
    interpolated_sent_iff rfl rfl rfl rfl rfl rfl codeFor_writeSync_turretStream hread
      codeFor_writeSyncManual_turretStream hmoving
  obtain rfl : "io" = out := Option.some.inj hout
  have hrotation := hfields ⟨turretRotation, "TurretComp", false⟩ List.mem_cons_self
  have hrecoil := hfields ⟨turretRecoil, "TurretComp", false⟩ (List.mem_cons_of_mem _ List.mem_cons_self)
  refine ⟨hmoved, writes, reads, hwritten, hrecoil.1.2 (by decide), mt hrecoil.2.1 (by decide),
    hrotation.1.2 (by decide), hrotation.2.2 (by decide), fun hall => ?_⟩
  have hsent := hfed.1 hall ⟨turretRecoil, "TurretComp", false⟩
    (List.mem_cons_of_mem _ List.mem_cons_self) rfl rfl
  exact Bool.noConfusion hsent.2

/-- A field that is never to be sent is sent by hand, and moves to where nothing sent tells it to. -/
theorem turret_recoil_unfed :
    (FieldSet.merge turretScope turretComponents).2 = [] ∧ turretStream.validate = .ok () ∧
      turretRecoil.sync.noSync = true ∧
      turretStream.codeFor (unitMethod "writeSync") [] =
        .ok (some ⟨⟨[⟨0, "io.f(this.rotation);"⟩], 0⟩, []⟩) ∧
      turretStream.codeFor (unitMethod "writeSyncManual") [] =
        .ok (some ⟨⟨[⟨0, "io.put(this.recoil);"⟩, ⟨0, "io.put(this.rotation);"⟩], 0⟩, []⟩) ∧
      "recoil = recoil_target;" ∈ turretStream.interpolate.code.texts := by
  refine ⟨rfl, ?_, rfl, codeFor_writeSync_turretStream, codeFor_writeSyncManual_turretStream, ?_⟩
  · rw [validate, uncoded?, serialized_turretStream, syncedFields_turretStream]
    rfl
  · rw [interpolate, syncValues_turretStream]
    decide

end EntityStream

end EntityWeaver
