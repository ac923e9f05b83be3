import ApiCompiler.Json.Decoder

/-!
# Configuration — authorization

How callers of the API identify themselves: one default mode and any number of further ones.
-/

namespace ApiCompiler

open Json

/-- A way for a caller to identify itself. -/
inductive AuthenticationType where
  | apiKey
  | lambda
  | iam
  | openidConnect
  | userPools
deriving DecidableEq, Repr, Inhabited

namespace AuthenticationType

/-- The name of an authentication type in documents. -/
def name : AuthenticationType → String
  | apiKey        => "API_KEY"
  | lambda        => "AWS_LAMBDA"
  | iam           => "AWS_IAM"
  | openidConnect => "OPENID_CONNECT"
  | userPools     => "AMAZON_COGNITO_USER_POOLS"

/-- Every authentication type. -/
def all : List AuthenticationType := [apiKey, lambda, iam, openidConnect, userPools]

def encode (t : AuthenticationType) : Json := str t.name

def decode : Decoder AuthenticationType := Decoder.variant (all.map fun t => (t.name, t))

theorem mem_all (t : AuthenticationType) : t ∈ all := by cases t <;> decide

end AuthenticationType

/-- One authorization mode of the API. -/
structure AuthMode where
  authenticationType   : AuthenticationType
  apiKeyExpirationDays : Option UInt32 := none
  userPoolId           : Option String := none
  openIdIssuerUrl      : Option String := none
  lambdaFunction       : Option String := none
deriving DecidableEq, Repr, Inhabited

/-- A field of an object, or none for a value that is missing. -/
def Json.fieldOf? (name : String) : Option Json → List (String × Json)
  | some j => [(name, j)]
  | none   => []

namespace AuthMode

def encode (m : AuthMode) : Json :=
  obj (fieldOf? "apiKeyExpirationDays" (m.apiKeyExpirationDays.map fun n => int n.toNat)
    ++ [("authenticationType", m.authenticationType.encode)]
    ++ fieldOf? "lambdaFunction" (m.lambdaFunction.map str)
    ++ fieldOf? "openIdIssuerUrl" (m.openIdIssuerUrl.map str)
    ++ fieldOf? "userPoolId" (m.userPoolId.map str))

def record : Record AuthMode :=
  AuthMode.mk
    <$> .field "authenticationType" AuthenticationType.decode
    <*> .optional "apiKeyExpirationDays" Decoder.word32
    <*> .optional "userPoolId" Decoder.string
    <*> .optional "openIdIssuerUrl" Decoder.string
    <*> .optional "lambdaFunction" Decoder.string

def decode : Decoder AuthMode := record.decode "struct AuthMode"

end AuthMode

/-- The authorization modes of the API. -/
structure AuthConfiguration where
  default    : AuthMode := { authenticationType := .apiKey }
  additional : List AuthMode := []
deriving DecidableEq, Repr, Inhabited

namespace AuthConfiguration

/-- Every mode, the default one first. -/
def modes (c : AuthConfiguration) : List AuthMode := c.default :: c.additional

/-- Whether some mode has the authentication type. -/
def supports (c : AuthConfiguration) (t : AuthenticationType) : Bool :=
  c.modes.any (·.authenticationType == t)

def encode (c : AuthConfiguration) : Json :=
  obj [("additionalAuthenticationProviders", arr (c.additional.map AuthMode.encode)),
    ("defaultAuthentication", c.default.encode)]

def record : Record AuthConfiguration :=
  AuthConfiguration.mk
    <$> .field "defaultAuthentication" AuthMode.decode
    <*> .withDefault "additionalAuthenticationProviders" (Decoder.list AuthMode.decode) []

def decode : Decoder AuthConfiguration := record.decode "struct AppSyncAuthConfiguration"

end AuthConfiguration

end ApiCompiler
