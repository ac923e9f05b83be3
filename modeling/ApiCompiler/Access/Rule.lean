import ApiCompiler.Config.Authorization
import ApiCompiler.Fault

/-!
# Access — authorization rules

A rule admits one kind of caller to a model. The authentication type that it needs is that of its
provider, or without one the usual type of its strategy.
-/

namespace ApiCompiler

open Json

/-- Whom a rule admits. -/
inductive AuthStrategy where
  | owner
  | groups
  | everyone
  | signedIn
  | custom
deriving DecidableEq, Repr, Inhabited

namespace AuthStrategy

/-- The name of a strategy in schemas. -/
def name : AuthStrategy → String
  | owner    => "owner"
  | groups   => "groups"
  | everyone => "public"
  | signedIn => "private"
  | custom   => "custom"

def encode (s : AuthStrategy) : Json := str s.name

def decode : Decoder AuthStrategy :=
  Decoder.variant ([owner, groups, everyone, signedIn, custom].map fun s => (s.name, s))

/-- The authentication type of a rule without a provider. -/
def authenticationType : AuthStrategy → AuthenticationType
  | everyone                   => .apiKey
  | owner | groups | signedIn => .userPools
  | custom                     => .lambda

end AuthStrategy

/-- An authorization rule. -/
structure AuthRule where
  allow      : AuthStrategy
  provider   : Option String := none
  groups     : List String := []
  ownerField : Option String := none
  operations : List String := []
deriving DecidableEq, Repr, Inhabited

/-- A field for a list of texts, or none for an empty list. -/
def Json.fieldOfStrings (name : String) (items : List String) : List (String × Json) :=
  if items.isEmpty then [] else [(name, ofStrings items)]

namespace AuthRule

def encode (r : AuthRule) : Json :=
  obj ([("allow", r.allow.encode)]
    ++ fieldOfStrings "groups" r.groups
    ++ fieldOfStrings "operations" r.operations
    ++ fieldOf? "ownerField" (r.ownerField.map str)
    ++ fieldOf? "provider" (r.provider.map str))

def record : Record AuthRule :=
  AuthRule.mk
    <$> .field "allow" AuthStrategy.decode
    <*> .optional "provider" Decoder.string
    <*> .withDefault "groups" (Decoder.list Decoder.string) []
    <*> .optional "ownerField" Decoder.string
    <*> .withDefault "operations" (Decoder.list Decoder.string) []

def decode : Decoder AuthRule := record.decode "struct AuthRule"

/-- The authentication type of a provider. -/
def providerType (provider : String) : Except Fault AuthenticationType :=
  if provider = "apiKey" then .ok .apiKey
  else if provider = "iam" then .ok .iam
  else if provider = "userPools" then .ok .userPools
  else if provider = "oidc" then .ok .openidConnect
  else if provider = "function" then .ok .lambda
  else .error (.invalidDirective "auth" ("unknown auth provider '" ++ provider ++ "'"))

/-- The authentication type that a rule needs. -/
def authenticationType (r : AuthRule) : Except Fault AuthenticationType :=
  match r.provider with
  | some provider => providerType provider
  | none          => .ok r.allow.authenticationType

/-- Whether a rule admits groups and names none. -/
def lacksGroups (r : AuthRule) : Bool := r.allow == .groups && r.groups.isEmpty

end AuthRule

/-- The JSON form of a list of rules. -/
def encodeRules (rules : List AuthRule) : Json := .arr (rules.map AuthRule.encode)

end ApiCompiler
