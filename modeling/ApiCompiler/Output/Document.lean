import ApiCompiler.Config.Authorization
import ApiCompiler.Fault

/-!
# Outputs — the versioned document

A document describes a deployed API to tools. Its version decides what the rest of it has to be,
so a document of an unknown version is refused.

* `OutputDocument.validate`: the description that a document holds.
* `OutputDocument.encode`: the document of a description.
-/

namespace ApiCompiler

open Json

/-- Version 1 of the description of a deployed API. -/
structure OutputPayload where
  region             : String
  endpoint           : String
  authenticationType : AuthenticationType
  apiKey             : Option String := none
  apiId              : String
  schemaUri          : String
deriving DecidableEq, Repr, Inhabited

namespace OutputPayload

def encode (p : OutputPayload) : Json :=
  obj ([("amplifyApiModelSchemaS3Uri", str p.schemaUri),
      ("awsAppsyncApiEndpoint", str p.endpoint),
      ("awsAppsyncApiId", str p.apiId)]
    ++ fieldOf? "awsAppsyncApiKey" (p.apiKey.map str)
    ++ [("awsAppsyncAuthenticationType", p.authenticationType.encode),
      ("awsAppsyncRegion", str p.region)])

def record : Record OutputPayload :=
  OutputPayload.mk
    <$> .field "awsAppsyncRegion" Decoder.string
    <*> .field "awsAppsyncApiEndpoint" Decoder.string
    <*> .field "awsAppsyncAuthenticationType" AuthenticationType.decode
    <*> .optional "awsAppsyncApiKey" Decoder.string
    <*> .field "awsAppsyncApiId" Decoder.string
    <*> .field "amplifyApiModelSchemaS3Uri" Decoder.string

def decode : Decoder OutputPayload := record.decode "struct GraphqlOutputPayloadV1"

end OutputPayload

/-- The description of a deployed API, by version. -/
inductive OutputDocument where
  | v1 (payload : OutputPayload)
deriving DecidableEq, Repr, Inhabited

namespace OutputDocument

/-- The version of a description. -/
def version : OutputDocument → String
  | v1 _ => "1"

/-- The versions that there are. -/
def versions : List String := ["1"]

def encode : OutputDocument → Json
  | v1 payload => obj [("payload", payload.encode), ("version", str "1")]

/-- What a document says about its version. -/
def checkVersion : Json → Except DecodeError Unit
  | str s => if s ∈ versions then .ok () else .error (.unknownVariant s versions)
  | j     => .error (.invalidType j "variant identifier")

/-- What a document of version 1 has besides its version. -/
def recordV1 : Record OutputDocument := v1 <$> .field "payload" OutputPayload.decode

/-- What the decoder of version 1 decodes, in words. -/
def titleV1 : String := "struct variant VersionedGraphqlOutput::V1"

/-- The decoder of a document: an object with a version, or an array that starts with one. What
is left of it was held back until the version was known. -/
def decode : Decoder OutputDocument
  | _, obj fields        =>
    match Dict.findList? "version" fields with
    | none   => .error (.missingField "version")
    | some v => do
      checkVersion v
      recordV1.decode titleV1 .buffered (obj (fields.filter (·.1 != "version")))
  | _, arr []            => .error (.missingField "version")
  | _, arr (v :: rest)   => do
    checkVersion v
    recordV1.decode titleV1 .buffered (arr rest)
  | _, j                 =>
    .error (.invalidType j "internally tagged enum VersionedGraphqlOutput")

/-- The description that a document holds. -/
def validate (j : Json) : Except Fault OutputDocument :=
  match decode .value j with
  | .ok d    => .ok d
  | .error e => .error (.validation ("invalid graphql output: " ++ e.message))

end OutputDocument

end ApiCompiler
