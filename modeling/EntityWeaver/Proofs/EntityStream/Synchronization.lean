import EntityWeaver.Proofs.EntityStream.Choices
import EntityWeaver.Proofs.EntityStream.Revisions

/-! Network data is read as it was sent, by a local entity and by any other one.

    The code that sends network data writes one value for each field of the stream. The code that reads
    it has one of four courses for each field, by whether the field has shadows and whether a local
    entity that keeps it as its own runs the code:

                     not kept as its own            kept as its own
        plain        x = value                      value dropped
        shadowed     x_last = x, x_target = value   value dropped, x_last = x, x_target = x

    Each takes one value, so the values behind it are found where they stand. What a local entity drops
    is never stored, but nothing keeps another field from being called like the shadow of one that it
    keeps: then the value of the other field goes there. -/

namespace EntityWeaver

/-- The value that a step takes from the stream. -/
def SyncStep.taken? : SyncStep → Option ValueRead
  | .take value => some value
  | _ => none

namespace EntityStream

variable {s : EntityStream} {stream : String} {m : MethodDecl} {history : List Revision}

/-! ### What is sent and what becomes of it -/

/-- A codec that writes and one that reads use the same method of the stream, or neither does. -/
def SameMethod (w : WriteCodec) (r : ReadCodec) : Prop := ∀ p, w = .primitive p ↔ r = .primitive p

/-- The value of a field is sent under its name, a primitive one by the stream itself. -/
structure Sends (s : EntityStream) (f : FieldDecl) (w : ValueWrite) : Prop where
  field : w.field = f.name
  codec : s.codecs.writer? f.type true = some w.codec
  primitive : ∀ p, w.codec = .primitive p ↔ Primitive.ofType? f.type = some p

/-- A local entity keeps the field of that name as its own. -/
def IsOwn (s : EntityStream) (name : String) : Prop :=
  ∃ f ∈ s.fields.fields, f.name = name ∧ f.decl.sync.syncLocal = true

/-- The steps in which an entity receives a value that was sent. Each takes one value. -/
inductive Receives (s : EntityStream) (isLocal : Bool) (w : ValueWrite) : List SyncStep → Prop where
  /-- The value goes into the field. -/
  | stored {codec : ReadCodec} (hcodec : SameMethod w.codec codec)
      (hshadow : s.fields.isSyncValue w.field = false)
      (hkept : ¬(isLocal = true ∧ s.IsOwn w.field)) :
      Receives s isLocal w [.take ⟨codec, some ("this." ++ w.field)⟩]
  /-- The field is to move to the value, from the one it has. -/
  | moved {codec : ReadCodec} (hcodec : SameMethod w.codec codec)
      (hshadow : s.fields.isSyncValue w.field = true)
      (hkept : ¬(isLocal = true ∧ s.IsOwn w.field)) :
      Receives s isLocal w
        [.keepLast w.field, .take ⟨codec, some ("this." ++ targetShadow w.field)⟩]
  /-- The value is dropped. -/
  | dropped {codec : ReadCodec} (hcodec : SameMethod w.codec codec)
      (hshadow : s.fields.isSyncValue w.field = false) (hlocal : isLocal = true)
      (hown : s.IsOwn w.field) :
      Receives s isLocal w [.take ⟨codec, none⟩]
  /-- The value is dropped, and the field moves nowhere. -/
  | held {codec : ReadCodec} (hcodec : SameMethod w.codec codec)
      (hshadow : s.fields.isSyncValue w.field = true) (hlocal : isLocal = true)
      (hown : s.IsOwn w.field) :
      Receives s isLocal w [.take ⟨codec, none⟩, .keepLast w.field, .keepTarget w.field]

theorem Receives.exists_taken {isLocal : Bool} {w : ValueWrite} {steps : List SyncStep}
    (h : s.Receives isLocal w steps) :
    ∃ v, steps.filterMap SyncStep.taken? = [v] ∧ SameMethod w.codec v.codec := by
  cases h with
  | stored hcodec => exact ⟨_, rfl, hcodec⟩
  | moved hcodec => exact ⟨_, rfl, hcodec⟩
  | dropped hcodec => exact ⟨_, rfl, hcodec⟩
  | held hcodec => exact ⟨_, rfl, hcodec⟩

/-- Values that are received one by one are taken one by one. -/
theorem forall₂_taken {isLocal : Bool} {writes : List ValueWrite} {reads : List (List SyncStep)}
    (h : List.Forall₂ (s.Receives isLocal) writes reads) :
    List.Forall₂ (fun w v => SameMethod w.codec v.codec) writes
      (reads.flatten.filterMap SyncStep.taken?) := by
  induction h with
  | nil => exact .nil
  | cons hsteps _ ih =>
    obtain ⟨v, htaken, hcodec⟩ := hsteps.exists_taken
    rw [List.flatten_cons, List.filterMap_append, htaken, List.singleton_append]
    exact .cons hcodec ih

/-! ### The steps of a field -/

theorem sends_of_valueWrite {f : FieldDecl} {w : ValueWrite} (h : s.valueWrite true f = .ok w) :
    s.Sends f w := by
  obtain ⟨hcodec, hfield⟩ := valueWrite_eq_ok.1 h
  exact ⟨hfield, hcodec, fun p => CodecTable.writer?_primitive hcodec⟩

/-- The stream carries the fields that are both serialized and synchronized. -/
theorem mem_syncedFields_iff {f : FieldDecl} : f ∈ s.syncedFields ↔
    f ∈ s.fields.decls ∧ f.isSerialized = true ∧ f.sync.noSync = false := by
  rw [syncedFields, FieldDecl.synced, FieldDecl.serialized, List.mem_filter, List.mem_mergeSort,
    List.mem_filter, Bool.not_eq_true', and_assoc]

/-- A field of the stream is one of the set. -/
theorem exists_of_mem_syncedFields {f : FieldDecl} (hf : f ∈ s.syncedFields) :
    ∃ g ∈ s.fields.fields, g.decl = f :=
  List.mem_map.1 (mem_syncedFields_iff.1 hf).1

theorem isOwn_iff (hnames : s.fields.names.Nodup) {f : FieldDecl} (hf : f ∈ s.syncedFields) :
    s.IsOwn f.name ↔ f.sync.syncLocal = true := by
  obtain ⟨g, hg, rfl⟩ := exists_of_mem_syncedFields hf
  constructor
  · rintro ⟨g', hg', hname, hown⟩
    rwa [List.inj_on_of_nodup_map hnames hg' hg hname] at hown
  · intro hown
    exact ⟨g, hg, rfl, hown⟩

/-- The steps of a field are decided by two flags: whether it has shadows, and whether the entity is
    local and keeps it. -/
theorem exists_steps_eq {f : FieldDecl} {r : SyncRead} (h : s.syncRead f = .ok r) :
    ∃ codec, s.codecs.reader? f.type = some codec ∧ ∀ isLocal,
      r.steps isLocal = if isLocal && f.sync.syncLocal then
          .take ⟨codec, none⟩ ::
            if s.fields.isSyncValue f.name then [.keepLast f.name, .keepTarget f.name] else []
        else (if s.fields.isSyncValue f.name then [.keepLast f.name] else []) ++
          [.take ⟨codec, some (s.syncTarget f.name)⟩] := by
  obtain ⟨v, hv, h⟩ := bind_eq_ok.1 h
  obtain rfl := Except.ok.inj h
  unfold valueRead at hv
  cases hreader : s.codecs.reader? f.type with
  | none => simp [hreader] at hv
  | some codec =>
    simp only [hreader, Except.ok.injEq] at hv
    subst hv
    refine ⟨codec, rfl, fun isLocal => ?_⟩
    cases isLocal <;> cases f.sync.syncLocal <;> simp [SyncRead.steps]

/-- What is sent of a field is received. -/
theorem receives_steps (hnames : s.fields.names.Nodup) {f : FieldDecl} (hf : f ∈ s.syncedFields)
    {w : ValueWrite} {r : SyncRead} (hw : s.valueWrite true f = .ok w) (hr : s.syncRead f = .ok r)
    (isLocal : Bool) : s.Receives isLocal w (r.steps isLocal) := by
  obtain ⟨hfield, -, hwriter⟩ := sends_of_valueWrite hw
  obtain ⟨codec, hreader, hsteps⟩ := exists_steps_eq hr
  have hcodec : SameMethod w.codec codec := fun p => by
    rw [hwriter, CodecTable.reader?_primitive hreader]
  have hown : isLocal = true ∧ s.IsOwn w.field ↔ (isLocal && f.sync.syncLocal) = true := by
    rw [hfield, isOwn_iff hnames hf, Bool.and_eq_true]
  rw [hsteps, syncTarget, ← hfield]
  cases hdrops : isLocal && f.sync.syncLocal with
  | false =>
    have hkept : ¬(isLocal = true ∧ s.IsOwn w.field) := by simp [hown, hdrops]
    cases hshadow : s.fields.isSyncValue w.field with
    | false => exact .stored hcodec hshadow hkept
    | true => exact .moved hcodec hshadow hkept
  | true =>
    obtain ⟨hlocal, hkept⟩ := hown.2 hdrops
    cases hshadow : s.fields.isSyncValue w.field with
    | false => exact .dropped hcodec hshadow hlocal hkept
    | true => exact .held hcodec hshadow hlocal hkept

/-- The steps of all fields, as an entity takes them. -/
def stepsOf (isLocal : Bool) (rs : List SyncRead) : List (List SyncStep) := rs.map (·.steps isLocal)

theorem forall₂_receives (hnames : s.fields.names.Nodup) {writes : List ValueWrite}
    {rs : List SyncRead} (hsent : s.sent = .ok writes) (hreceived : s.received = .ok rs)
    (isLocal : Bool) : List.Forall₂ (s.Receives isLocal) writes (stepsOf isLocal rs) := by
  rw [stepsOf, List.forall₂_map_right_iff]
  exact forall₂_of_common (mapM_eq_ok.1 hsent) (mapM_eq_ok.1 hreceived)
    fun f hf w r hw hr => receives_steps hnames hf hw hr isLocal

/-! ### What a local entity keeps -/

/-- Among the steps is one that stores what it takes in a variable of the entity. -/
def Fills (steps : List SyncStep) (x : String) : Prop :=
  ∃ v, SyncStep.take v ∈ steps ∧ v.target = some ("this." ++ x)

/-- The variable that holds the value of a field which a local entity keeps as its own, or the value
    that this is to move to. -/
inductive OwnVariable (s : EntityStream) : String → Prop where
  | value {f : MergedField} (hf : f ∈ s.fields.fields) (hown : f.decl.sync.syncLocal = true) :
      OwnVariable s f.name
  | target {f : MergedField} (hf : f ∈ s.fields.fields) (hown : f.decl.sync.syncLocal = true)
      (hshadow : s.fields.isSyncValue f.name = true) : OwnVariable s (targetShadow f.name)

/-- The variable that a synchronized field is read into. -/
def variableOf (s : EntityStream) (name : String) : String :=
  if s.fields.isSyncValue name then targetShadow name else name

theorem variableOf_of_shadow {name : String} (h : s.fields.isSyncValue name = true) :
    s.variableOf name = targetShadow name := if_pos h

theorem variableOf_of_plain {name : String} (h : s.fields.isSyncValue name = false) :
    s.variableOf name = name := if_neg (Bool.eq_false_iff.1 h)

/-- Of two fields only the second is one that a local entity keeps as its own, and one of the two is
    called like the shadow that the other moves to. -/
structure Trespasses (s : EntityStream) (g f : MergedField) : Prop where
  received : g.decl ∈ s.syncedFields
  present : f ∈ s.fields.fields
  shared : g.decl.sync.syncLocal = false
  own : f.decl.sync.syncLocal = true
  name : s.fields.isSyncValue g.name = false ∧ s.fields.isSyncValue f.name = true ∧
      g.name = targetShadow f.name ∨
    s.fields.isSyncValue g.name = true ∧ f.name = targetShadow g.name

/-- A local entity stores the values of the fields that it does not keep as its own. -/
theorem take_mem_steps_true {f : FieldDecl} {r : SyncRead} (hr : s.syncRead f = .ok r) {x : String} :
    (∃ v, SyncStep.take v ∈ r.steps true ∧ v.target = some ("this." ++ x)) ↔
      f.sync.syncLocal = false ∧ x = s.variableOf f.name := by
  obtain ⟨codec, -, hsteps⟩ := exists_steps_eq hr
  have htarget : s.syncTarget f.name = "this." ++ s.variableOf f.name := rfl
  rw [hsteps, htarget, Bool.true_and]
  cases f.sync.syncLocal with
  | true => cases s.fields.isSyncValue f.name <;> simp
  | false => cases s.fields.isSyncValue f.name <;> simp [String.append_right_inj, eq_comm]

theorem fills_iff {rs : List SyncRead} (hreceived : s.received = .ok rs) {x : String} :
    Fills (stepsOf true rs).flatten x ↔
      ∃ f ∈ s.syncedFields, f.sync.syncLocal = false ∧ x = s.variableOf f.name := by
  have hreads := mapM_eq_ok.1 hreceived
  simp only [Fills, stepsOf, List.mem_flatten, List.mem_map, exists_exists_and_eq_and]
  constructor
  · rintro ⟨v, ⟨r, hr, hv⟩, htarget⟩
    obtain ⟨f, hf, hread⟩ := exists_of_forall₂ hreads.flip hr
    exact ⟨f, hf, (take_mem_steps_true hread).1 ⟨v, hv, htarget⟩⟩
  · rintro ⟨f, hf, hx⟩
    obtain ⟨r, hr, hread⟩ := exists_of_forall₂ hreads hf
    obtain ⟨v, hv, htarget⟩ := (take_mem_steps_true hread).2 hx
    exact ⟨v, ⟨r, hr, hv⟩, htarget⟩

/-- A local entity takes nothing for its own variables from the stream, unless a name trespasses. -/
theorem not_fills_own_iff (hnames : s.fields.names.Nodup) {rs : List SyncRead}
    (hreceived : s.received = .ok rs) :
    (∀ x, s.OwnVariable x → ¬Fills (stepsOf true rs).flatten x) ↔ ∀ g f, ¬s.Trespasses g f := by
  have hsame {g f : MergedField} (hg : g.decl ∈ s.syncedFields) (hf : f ∈ s.fields.fields)
      (hshared : g.decl.sync.syncLocal = false) (hown : f.decl.sync.syncLocal = true) :
      g.name ≠ f.name := by
    intro hname
    have howned : s.IsOwn g.name := ⟨f, hf, hname.symm, hown⟩
    rw [(isOwn_iff hnames hg).1 howned] at hshared
    cases hshared
  constructor
  · rintro h g f ⟨hg, hf, hshared, hown, ⟨hplain, hshadow, hname⟩ | ⟨hshadow, hname⟩⟩
    · have hvariable : targetShadow f.name = s.variableOf g.name := by
        rw [variableOf_of_plain hplain, hname]
      exact h _ (.target hf hown hshadow) ((fills_iff hreceived).2 ⟨g.decl, hg, hshared, hvariable⟩)
    · have hvariable : f.name = s.variableOf g.name := by rw [variableOf_of_shadow hshadow, hname]
      exact h _ (.value hf hown) ((fills_iff hreceived).2 ⟨g.decl, hg, hshared, hvariable⟩)
  · intro h x hx hfills
    obtain ⟨d, hd, hshared, hvariable⟩ := (fills_iff hreceived).1 hfills
    obtain ⟨g, -, rfl⟩ := exists_of_mem_syncedFields hd
    change x = s.variableOf g.name at hvariable
    -- each variable of `f` that is the one of `g` gives the two one name, or a name that trespasses
    cases hx with
    | @value f hf hown =>
      cases hshadow : s.fields.isSyncValue g.name with
      | false =>
        rw [variableOf_of_plain hshadow] at hvariable
        exact hsame hd hf hshared hown hvariable.symm
      | true =>
        rw [variableOf_of_shadow hshadow] at hvariable
        exact h g f ⟨hd, hf, hshared, hown, .inr ⟨hshadow, hvariable⟩⟩
    | @target f hf hown hshadowed =>
      cases hshadow : s.fields.isSyncValue g.name with
      | false =>
        rw [variableOf_of_plain hshadow] at hvariable
        exact h g f ⟨hd, hf, hshared, hown, .inl ⟨hshadow, hshadowed, hvariable.symm⟩⟩
      | true =>
        rw [variableOf_of_shadow hshadow, targetShadow_inj] at hvariable
        exact hsame hd hf hshared hown hvariable.symm

/-! ### The code of both methods -/

/-- The expressions that every reading of network data starts with. -/
def arrival : List String :=
  ["if(lastUpdated != 0) updateSpacing = Time.timeSinceMillis(lastUpdated)",
    "lastUpdated = Time.millis()", "boolean islocal = isLocal()"]

theorem texts_writeSync {code : CodeBlock} (h : s.writeSync stream = .ok code) :
    ∃ writes, s.sent = .ok writes ∧ code.texts = writes.map fun w => w.text stream ++ ";" := by
  obtain ⟨writes, hwrites, h⟩ := bind_eq_ok.1 h
  obtain rfl := Except.ok.inj h
  exact ⟨writes, hwrites, by simp [Function.comp_def]⟩

/-- A run of the code that reads network data goes through the steps that are meant for the entity. -/
theorem performed_readSync {code : InjectedCode} (h : s.readSync stream = .ok code) :
    ∃ rs, s.received = .ok rs ∧ ∀ isLocal, code.code.performed isLocal =
      (arrival ++ (stepsOf isLocal rs).flatten.map (·.text stream)).map (· ++ ";") := by
  obtain ⟨rs, hrs, h⟩ := bind_eq_ok.1 h
  obtain rfl := Except.ok.inj h
  refine ⟨rs, hrs, fun isLocal => ?_⟩
  have hstart : (stamp.statement "boolean islocal = isLocal()").texts = arrival.map (· ++ ";") := by
    simp [stamp, arrival]
  have hsteps : (rs.flatMap fun r => r.expressions stream isLocal) =
      (stepsOf isLocal rs).flatten.map (·.text stream) := by
    simp [stepsOf, SyncRead.expressions, List.flatMap, Function.comp_def]
  rw [CodeBlock.performed, SyncRead.texts_foldl_addTo, hstart, Side.performed_statements,
    SyncRead.performed_flatMap_texts, hsteps, List.map_append]
  rfl

theorem codeFor_writeSync {code : InjectedCode} (hm : m.name = "writeSync")
    (h : s.codeFor m history = .ok (some code)) : ∃ stream,
      m.params.head?.map (·.name) = some stream ∧ s.writeSync stream = .ok code.code := by
  cases carries_of_codeFor h
  case writeSync stream code hname hparam hcode => exact ⟨stream, hparam, hcode⟩
  all_goals simp_all

theorem codeFor_readSync {code : InjectedCode} (hm : m.name = "readSync")
    (h : s.codeFor m history = .ok (some code)) : ∃ stream,
      m.params.head?.map (·.name) = some stream ∧ s.readSync stream = .ok code := by
  cases carries_of_codeFor h
  case readSync stream hname hparam hcode => exact ⟨stream, hparam, hcode⟩
  all_goals simp_all

/-- The code that reads network data takes the values that were sent, one by one and in order, whether
    the entity is local or not, and each primitive one by the method that wrote it. A local entity drops
    the values of the fields that it keeps as its own, any other value goes into its field, or is what
    the field is to move to from the value that it has. So a local entity fills none of the variables
    that it keeps, unless another field is called like one of them. -/
theorem readSync_matches_writeSync {scope : FieldSet.Scope} {components : List ComponentDecl}
    {writing reading : MethodDecl} {written read : InjectedCode}
    (hfields : s.fields = (FieldSet.merge scope components).1)
    (hwriting : writing.name = "writeSync") (hreading : reading.name = "readSync")
    (hwritten : s.codeFor writing history = .ok (some written))
    (hread : s.codeFor reading history = .ok (some read)) :
    ∃ out inp writes, ∃ reads : Bool → List (List SyncStep),
      writing.params.head?.map (·.name) = some out ∧ reading.params.head?.map (·.name) = some inp ∧
      written.code.texts = writes.map (fun w : ValueWrite => w.text out ++ ";") ∧
      List.Forall₂ s.Sends s.syncedFields writes ∧
      (∀ isLocal, read.code.performed isLocal =
          (arrival ++ (reads isLocal).flatten.map (·.text inp)).map (· ++ ";") ∧
        List.Forall₂ (fun w v => SameMethod w.codec v.codec) writes
          ((reads isLocal).flatten.filterMap SyncStep.taken?) ∧
        List.Forall₂ (s.Receives isLocal) writes (reads isLocal)) ∧
      ((∀ x, s.OwnVariable x → ¬Fills (reads true).flatten x) ↔ ∀ g f, ¬s.Trespasses g f) := by
  have hnames : s.fields.names.Nodup := hfields ▸ FieldSet.names_nodup_merge scope components
  obtain ⟨out, hout, hwrite⟩ := codeFor_writeSync hwriting hwritten
  obtain ⟨inp, hinp, hreadSync⟩ := codeFor_readSync hreading hread
  obtain ⟨writes, hsent, htexts⟩ := texts_writeSync hwrite
  obtain ⟨rs, hreceived, hperformed⟩ := performed_readSync hreadSync
  have hsends : List.Forall₂ s.Sends s.syncedFields writes :=
    (mapM_eq_ok.1 hsent).imp fun _ _ => sends_of_valueWrite
  refine ⟨out, inp, writes, fun isLocal => stepsOf isLocal rs, hout, hinp, htexts, hsends,
    fun isLocal => ?_, not_fills_own_iff hnames hreceived⟩
  have hreceives := forall₂_receives hnames hsent hreceived isLocal
  exact ⟨hperformed isLocal, forall₂_taken hreceives, hreceives⟩

/-- The place of a drone, which a local one keeps as its own. -/
def dronePlace : FieldDecl where
  name := "x"
  type := "float"
  sync := { interpolate := some .linear, syncLocal := true }

/-- A field that is called like the shadow of the place. -/
def droneMark : FieldDecl := { name := "x_target", type := "float" }

def droneTeam : FieldDecl := { name := "team", type := "Team", sync := { syncLocal := true } }

/-- A drone has its place and its mark from its base class. -/
def droneScope : FieldSet.Scope := ⟨"Drone", some ["PosComp"], true, none⟩

def droneComponents : List ComponentDecl :=
  [{ name := "PosComp", fields := [dronePlace, droneMark] }, { name := "TeamComp", fields := [droneTeam] }]

def droneStream : EntityStream where
  entity := "Drone"
  codecs := { writers := .ofList [("Team", "writeTeam")], readers := .ofList [("Team", "readTeam")] }
  fields := (FieldSet.merge droneScope droneComponents).1
  synced := true

/-- The code that reads a drone from the network. -/
def droneReading : CodeBlock where
  lines := [⟨0, "if(lastUpdated != 0) updateSpacing = Time.timeSinceMillis(lastUpdated);"⟩,
    ⟨0, "lastUpdated = Time.millis();"⟩, ⟨0, "boolean islocal = isLocal();"⟩,
    ⟨0, "if(!islocal) \x7b"⟩, ⟨1, "this.team = readTeam(io);"⟩,
    ⟨0, "\x7d else \x7b"⟩, ⟨1, "readTeam(io);"⟩, ⟨0, "\x7d"⟩,
    ⟨0, "if(!islocal) \x7b"⟩, ⟨1, "this.x_last = this.x;"⟩, ⟨1, "this.x_target = io.f();"⟩,
    ⟨0, "\x7d else \x7b"⟩, ⟨1, "io.f();"⟩, ⟨1, "this.x_last = this.x;"⟩,
    ⟨1, "this.x_target = this.x;"⟩, ⟨0, "\x7d"⟩,
    ⟨0, "this.x_target = io.f();"⟩]

theorem serialized_droneStream : droneStream.serialized = [droneTeam, dronePlace, droneMark] := by
  have hdecls : droneStream.fields.decls = [dronePlace, droneMark, droneTeam] := rfl
  rw [serialized, hdecls]
  simp [FieldDecl.serialized, FieldDecl.isSerialized, FieldDecl.isStatic, List.mergeSort, dronePlace,
    droneMark, droneTeam]

theorem syncedFields_droneStream : droneStream.syncedFields = droneStream.serialized := by
  show droneStream.serialized.filter _ = _
  rw [serialized_droneStream]
  rfl

theorem isSyncValue_droneStream (name : String) :
    droneStream.fields.isSyncValue name = ("x" == name) := by
  have hshadowed : droneStream.fields.shadowed.filterMap droneStream.fields.get? =
    [⟨dronePlace, "PosComp", true⟩] := rfl
  rw [FieldSet.isSyncValue, FieldSet.syncValues, hshadowed, List.mergeSort_singleton]
  simp [MergedField.name, dronePlace]

theorem codeFor_writeSync_droneStream :
    droneStream.codeFor (unitMethod "writeSync") [] = .ok (some ⟨⟨[⟨0, "writeTeam(io, this.team);"⟩,
      ⟨0, "io.f(this.x);"⟩, ⟨0, "io.f(this.x_target);"⟩], 0⟩, []⟩) := by
  show (droneStream.writeSync "io").map _ = _
  rw [writeSync, sent, syncedFields_droneStream, serialized_droneStream]
  rfl

theorem codeFor_readSync_droneStream :
    droneStream.codeFor (unitMethod "readSync") [] = .ok (some ⟨droneReading, [timeImport]⟩) := by
  show (droneStream.readSync "io").map _ = _
  rw [readSync, received, syncedFields_droneStream, serialized_droneStream]
  simp only [List.mapM_cons, syncRead, syncTarget, isSyncValue_droneStream]
  rfl

/-- The mark goes where a local drone keeps what its place is to move to. -/
theorem trespasses_droneStream :
    droneStream.Trespasses ⟨droneMark, "PosComp", true⟩ ⟨dronePlace, "PosComp", true⟩ := by
  have hsynced : droneMark ∈ droneStream.syncedFields := by
    rw [syncedFields_droneStream, serialized_droneStream]
    simp
  refine ⟨hsynced, List.mem_cons_self, rfl, rfl, .inl ⟨?_, ?_, rfl⟩⟩
  · rw [isSyncValue_droneStream]
    rfl
  · rw [isSyncValue_droneStream]
    rfl

theorem readSync_matches_writeSync_drone :
    ∃ writes, ∃ reads : Bool → List (List SyncStep),
      ["writeTeam(io, this.team);", "io.f(this.x);", "io.f(this.x_target);"] =
        writes.map (fun w : ValueWrite => w.text "io" ++ ";") ∧
      (∀ isLocal, droneReading.performed isLocal =
          (arrival ++ (reads isLocal).flatten.map (·.text "io")).map (· ++ ";") ∧
        List.Forall₂ (fun w v => SameMethod w.codec v.codec) writes
          ((reads isLocal).flatten.filterMap SyncStep.taken?) ∧
        List.Forall₂ (droneStream.Receives isLocal) writes (reads isLocal)) ∧
      ∃ x, droneStream.OwnVariable x ∧ Fills (reads true).flatten x := by
  obtain ⟨out, inp, writes, reads, hout, hinp, htexts, -, hreads, hown⟩ :=
    readSync_matches_writeSync rfl rfl rfl codeFor_writeSync_droneStream codeFor_readSync_droneStream
  obtain rfl : "io" = out := Option.some.inj hout
  obtain rfl : "io" = inp := Option.some.inj hinp
  refine ⟨writes, reads, htexts, hreads, ?_⟩
  by_contra hnone
  exact hown.1 (fun x hx hfills => hnone ⟨x, hx, hfills⟩) _ _ trespasses_droneStream

/-- A local drone is given a place to move to from the network, although its place is its own. -/
theorem drone_place_filled :
    (FieldSet.merge droneScope droneComponents).2 = [] ∧ droneStream.validate = .ok () ∧
      droneStream.codeFor (unitMethod "readSync") [] = .ok (some ⟨droneReading, [timeImport]⟩) ∧
      droneStream.OwnVariable "x_target" ∧
      "this.x_target = io.f();" ∈ droneReading.performed true := by
  refine ⟨rfl, ?_, codeFor_readSync_droneStream, ?_, by decide⟩
  · rw [validate, uncoded?, syncedFields_droneStream, serialized_droneStream]
    rfl
  · have hplace : ⟨dronePlace, "PosComp", true⟩ ∈ droneStream.fields.fields := List.mem_cons_self
    have hshadow : droneStream.fields.isSyncValue "x" = true := by
      rw [isSyncValue_droneStream]
      rfl
    exact .target hplace rfl hshadow

end EntityStream

end EntityWeaver
