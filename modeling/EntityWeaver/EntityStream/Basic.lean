import EntityWeaver.Diagnostic
import EntityWeaver.History.Basic

/-! Entity streams: what travels between an entity and a stream, before it becomes code.

    A value is written and read through the codec of its type. A value that nothing takes is read all
    the same and dropped, so that the next one is found where it stands.

        saved data      revision number · value · value · …    the serialized fields
        network data    value · value · …                      the synchronized fields

    Reading saved data has a branch for each revision on record, which consumes the layout of that
    revision. Reading network data, a local entity may keep a field of its own; it consumes the value
    that was sent and drops it. -/

namespace EntityWeaver

/-- A field that is put on a stream. -/
structure ValueWrite where
  field : String
  codec : WriteCodec
  deriving Repr, DecidableEq

/-- A value that is taken from a stream into a variable, or dropped where there is none. -/
structure ValueRead where
  codec : ReadCodec
  target : Option String
  deriving Repr, DecidableEq

/-- The values of saved data under one revision. -/
structure RevisionRead where
  version : UInt16
  values : List ValueRead
  deriving Repr, DecidableEq

/-- One step of reading a synchronized field. -/
inductive SyncStep where
  /-- Keep the present value as the one to move from. -/
  | keepLast (field : String)
  /-- Take a value from the stream. -/
  | take (value : ValueRead)
  /-- Make the present value the one to move to. -/
  | keepTarget (field : String)
  deriving Repr, DecidableEq

/-- How a synchronized field is read, and how a local entity reads it instead if it keeps its own. -/
structure SyncRead where
  remote : List SyncStep
  owned : Option (List SyncStep)
  deriving Repr, DecidableEq

namespace SyncRead

/-- The steps that an entity takes. -/
def steps (r : SyncRead) (isLocal : Bool) : List SyncStep :=
  if isLocal then r.owned.getD r.remote else r.remote

end SyncRead

/-- The side of an entity that its streams are made from. -/
structure EntityStream where
  entity : String
  codecs : CodecTable
  fields : FieldSet
  synced : Bool

namespace EntityStream

/-- No codec is known for the type of a field. -/
def missing (s : EntityStream) (field type : String) : AuthoringError :=
  .missingCodec s.entity field type

/-- The fields of saved data, in stream order. -/
def serialized (s : EntityStream) : List FieldDecl := FieldDecl.serialized s.fields.decls

/-- The fields of network data, in stream order. -/
def syncedFields (s : EntityStream) : List FieldDecl := FieldDecl.synced s.fields.decls

/-- The first field that lacks a codec it needs. -/
def uncoded? (s : EntityStream) : Option FieldDecl :=
  (s.serialized.find? fun f =>
    (s.codecs.writer? f.type false).isNone || (s.codecs.reader? f.type).isNone).or
  (if s.synced then s.syncedFields.find? fun f => (s.codecs.writer? f.type true).isNone else none)

/-- Refuse a field set with a field that cannot be written or read. -/
def validate (s : EntityStream) : Except AuthoringError Unit :=
  match s.uncoded? with
  | some f => .error (s.missing f.name f.type)
  | none => .ok ()

/-- Write a field, over the network if `net` is set. -/
def valueWrite (s : EntityStream) (net : Bool) (f : FieldDecl) : Except AuthoringError ValueWrite :=
  match s.codecs.writer? f.type net with
  | some codec => .ok ⟨f.name, codec⟩
  | none => .error (s.missing f.name f.type)

/-- Read a value of a type, which the error names after a field. -/
def valueRead (s : EntityStream) (field type : String) (target : Option String) :
    Except AuthoringError ValueRead :=
  match s.codecs.reader? type with
  | some codec => .ok ⟨codec, target⟩
  | none => .error (s.missing field type)

/-- What saving writes behind the revision number. -/
def saved (s : EntityStream) : Except AuthoringError (List ValueWrite) :=
  s.serialized.mapM (s.valueWrite false)

/-- What synchronizing writes. -/
def sent (s : EntityStream) : Except AuthoringError (List ValueWrite) :=
  s.syncedFields.mapM (s.valueWrite true)

/-- Whether a present field takes the values of an entry of a layout: it has that name and type. -/
def takes (s : EntityStream) (entry : LayoutField) : Bool :=
  (s.fields.get? entry.name).any fun f => normalType f.decl.type == entry.type

/-- Read one entry of a layout. -/
def entryRead (s : EntityStream) (entry : LayoutField) : Except AuthoringError ValueRead :=
  s.valueRead entry.name entry.type (if s.takes entry then some entry.name else none)

/-- Read the layout of a revision. -/
def revisionRead (s : EntityStream) (r : Revision) : Except AuthoringError RevisionRead :=
  (r.fields.mapM s.entryRead).map (⟨r.version, ·⟩)

/-- What loading reads behind the revision number, by revision. -/
def loaded (s : EntityStream) (history : List Revision) : Except AuthoringError (List RevisionRead) :=
  history.mapM s.revisionRead

/-- The variable that a field of network data is read into. -/
def syncTarget (s : EntityStream) (name : String) : String :=
  "this." ++ if s.fields.isSyncValue name then targetShadow name else name

/-- Read one field of network data; a field with shadows moves to the new value from the present one. -/
def syncRead (s : EntityStream) (f : FieldDecl) : Except AuthoringError SyncRead := do
  let shadowed := s.fields.isSyncValue f.name
  let value ← s.valueRead f.name f.type (some (s.syncTarget f.name))
  return {
    remote := (if shadowed then [.keepLast f.name] else []) ++ [.take value]
    owned := if f.sync.syncLocal then
        some (.take { value with target := none } ::
          if shadowed then [.keepLast f.name, .keepTarget f.name] else [])
      else none }

/-- What synchronizing reads, field by field. -/
def received (s : EntityStream) : Except AuthoringError (List SyncRead) :=
  s.syncedFields.mapM s.syncRead

end EntityStream

end EntityWeaver
