import ApiCompiler.Backend
import ApiCompiler.Output.Document

/-!
# Outputs — entries and their index

An entry is a versioned list of named outputs. Registering one sets its outputs on a backend and
puts their names into an index, in which no output belongs to two entries; flushing writes the
index as a record of metadata.

* `OutputStore.register`: registers an entry in place of any other one of its name.
* `OutputStore.flush`: writes the index.
-/

namespace ApiCompiler

open Json

/-- A versioned list of outputs. -/
structure OutputEntry where
  version : String
  payload : List (String × String) := []
deriving DecidableEq, Repr, Inhabited

namespace OutputEntry

def encode (e : OutputEntry) : Json :=
  obj [("payload", arr (e.payload.map fun p => arr [str p.1, str p.2])), ("version", str e.version)]

def record : Record OutputEntry :=
  OutputEntry.mk
    <$> .field "version" Decoder.string
    <*> .field "payload" (Decoder.list Decoder.pair)

def decode : Decoder OutputEntry := record.decode "struct BackendOutputEntry"

/-- The names of the outputs. -/
def keys (e : OutputEntry) : List String := e.payload.map (·.1)

/-- A list of outputs with one of them set: in its place, or at the end. -/
def setIn (key value : String) : List (String × String) → List (String × String)
  | []             => [(key, value)]
  | (k, v) :: rest => if k = key then (k, value) :: rest else (k, v) :: setIn key value rest

/-- The entry with an output set: in its place, or at the end. -/
def set (e : OutputEntry) (key value : String) : OutputEntry :=
  { e with payload := setIn key value e.payload }

/-- The entry of a list of outputs, each set in turn. -/
def ofFields (version : String) (fields : List (String × String)) : OutputEntry :=
  fields.foldl (fun e f => e.set f.1 f.2) ⟨version, []⟩

end OutputEntry

/-- What the index holds of an entry. -/
structure IndexedEntry where
  version : String
  outputs : List String
deriving DecidableEq, Repr, Inhabited

def IndexedEntry.encode (e : IndexedEntry) : Json :=
  obj [("stackOutputs", ofStrings e.outputs), ("version", str e.version)]

/-- What the index holds of every entry, by name. -/
abbrev OutputIndex := Dict IndexedEntry

namespace OutputIndex

def encode (i : OutputIndex) : Json := ofDict (i.mapValues fun _ => IndexedEntry.encode)

/-- The first entry other than `name`, by name, that holds an output. -/
def owner? (i : OutputIndex) (name key : String) : Option String :=
  (i.toList.find? fun p => p.1 != name && p.2.outputs.contains key).map (·.1)

end OutputIndex

/-- The key of the record that holds the index. -/
def indexKey : String := "AWS::Amplify::Output"

/-- An index of outputs over a backend. -/
structure OutputStore where
  backend : Backend
  index   : OutputIndex := ∅
deriving DecidableEq

namespace OutputStore

/-- Refuses an output that another entry holds. -/
def checkKey (i : OutputIndex) (name key : String) : Except Fault Unit :=
  match i.owner? name key with
  | some owner =>
    .error (.backend ("output '" ++ key ++ "' of entry '" ++ name
      ++ "' is already registered by entry '" ++ owner ++ "'"))
  | none       => .ok ()

/-- Sets outputs on a backend up to the first one that it refuses. -/
def setOutputs : List (String × String) → Backend → Except Fault Unit × Backend
  | [],             b => (.ok (), b)
  | (k, v) :: rest, b =>
    match b.addOutput k v with
    | .ok b    => setOutputs rest b
    | .error e => (.error e, b)

/-- Registers an entry in place of any other one of its name. -/
def register (s : OutputStore) (name : String) (e : OutputEntry) :
    Except Fault Unit × OutputStore :=
  -- no output is set before all keys are known to be free
  match e.keys.forM (checkKey s.index name) with
  | .error f => (.error f, s)
  | .ok _    =>
    match setOutputs e.payload s.backend with
    | (.error f, b) => (.error f, { s with backend := b })
    | (.ok _, b)    => (.ok (), ⟨b, s.index.insert name ⟨e.version, e.keys⟩⟩)

/-- The store after the index was written. -/
def flush (s : OutputStore) : OutputStore :=
  { s with backend := s.backend.addMetadata indexKey s.index.encode }

end OutputStore

/-- The name of the entry that describes the API. -/
def apiEntryName : String := "graphqlOutput"

namespace OutputDocument

/-- The entry of a description, in the order in which its parts are declared. -/
def toEntry : OutputDocument → OutputEntry
  | v1 p =>
    .ofFields "1" ([("awsAppsyncRegion", p.region), ("awsAppsyncApiEndpoint", p.endpoint),
      ("awsAppsyncAuthenticationType", p.authenticationType.name)]
      ++ (p.apiKey.map fun k => ("awsAppsyncApiKey", k)).toList
      ++ [("awsAppsyncApiId", p.apiId), ("amplifyApiModelSchemaS3Uri", p.schemaUri)])

end OutputDocument

/-- Registers the description of an API, which has to be valid as a document. -/
def OutputStore.registerApi (s : OutputStore) (p : OutputPayload) :
    Except Fault Unit × OutputStore :=
  match OutputDocument.validate (OutputDocument.v1 p).encode with
  | .error f => (.error f, s)
  | .ok d    => s.register apiEntryName d.toEntry

end ApiCompiler
