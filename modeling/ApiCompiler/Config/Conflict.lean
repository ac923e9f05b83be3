import ApiCompiler.Json.Decoder

/-!
# Configuration — conflict detection

How concurrent writes are resolved, for the whole project and for single models.
-/

namespace ApiCompiler

open Json

/-- What decides between two versions of a record. -/
inductive ConflictHandler where
  | optimistic
  | automerge
  | lambda
deriving DecidableEq, Repr, Inhabited

namespace ConflictHandler

/-- The name of a handler in documents. -/
def name : ConflictHandler → String
  | optimistic => "OPTIMISTIC"
  | automerge  => "AUTOMERGE"
  | lambda     => "LAMBDA"

def encode (h : ConflictHandler) : Json := str h.name

def decode : Decoder ConflictHandler :=
  Decoder.variant ([optimistic, automerge, lambda].map fun h => (h.name, h))

end ConflictHandler

/-- Conflict detection of a model. -/
structure ConflictDetection where
  handler       : ConflictHandler
  lambdaHandler : Option String := none
deriving DecidableEq, Repr, Inhabited

namespace ConflictDetection

def encode (c : ConflictDetection) : Json :=
  obj [("conflictHandler", c.handler.encode), ("lambdaConflictHandler", ofString? c.lambdaHandler)]

def record : Record ConflictDetection :=
  ConflictDetection.mk
    <$> .field "conflictHandler" ConflictHandler.decode
    <*> .optional "lambdaConflictHandler" Decoder.string

def decode : Decoder ConflictDetection := record.decode "struct ConflictDetection"

end ConflictDetection

/-- Conflict detection of the project and of single models, which go before it. -/
structure ResolverConfig where
  project : Option ConflictDetection := none
  models  : Dict ConflictDetection := ∅
deriving DecidableEq, Inhabited

namespace ResolverConfig

/-- The conflict detection of a model, its own or the project's. -/
def forModel (c : ResolverConfig) (model : String) : Option ConflictDetection :=
  c.models.find? model <|> c.project

def encode (c : ResolverConfig) : Json :=
  obj [("models", ofDict (c.models.mapValues fun _ => ConflictDetection.encode)),
    ("project", (c.project.map ConflictDetection.encode).getD null)]

def record : Record ResolverConfig :=
  ResolverConfig.mk
    <$> .optional "project" ConflictDetection.decode
    <*> .withDefault "models" (Decoder.dict ConflictDetection.decode) ∅

def decode : Decoder ResolverConfig := record.decode "struct ResolverConfig"

end ResolverConfig

end ApiCompiler
