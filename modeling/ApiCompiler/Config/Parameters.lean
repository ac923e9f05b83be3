import ApiCompiler.Json.Decoder

/-!
# Configuration — parameters

Switches that alter what passes do, and values that are known when resources are synthesized.
-/

namespace ApiCompiler

open Json

/-- Switches that alter what passes do. -/
structure TransformParameters where
  shouldDeepMergeDirectiveConfigDefaults       : Bool := true
  disableResolverDeduping                      : Bool := true
  sandboxModeEnabled                           : Bool := false
  useSubUsernameForDefaultIdentityClaim        : Bool := true
  populateOwnerFieldForStaticGroupAuth         : Bool := true
  suppressApiKeyGeneration                     : Bool := false
  secondaryKeyAsGsi                            : Bool := true
  enableAutoIndexQueryNames                    : Bool := true
  respectPrimaryKeyAttributesOnConnectionField : Bool := true
  enableSearchNodeToNodeEncryption             : Bool := false
  enableTransformerCfnOutputs                  : Bool := false
  allowDestructiveGraphqlSchemaUpdates         : Bool := false
  replaceTableUponGsiUpdate                    : Bool := false
  subscriptionsInheritPrimaryAuth              : Bool := false
deriving DecidableEq, Repr, Inhabited

namespace TransformParameters

def encode (p : TransformParameters) : Json :=
  obj [("allowDestructiveGraphqlSchemaUpdates", bool p.allowDestructiveGraphqlSchemaUpdates),
    ("disableResolverDeduping", bool p.disableResolverDeduping),
    ("enableAutoIndexQueryNames", bool p.enableAutoIndexQueryNames),
    ("enableSearchNodeToNodeEncryption", bool p.enableSearchNodeToNodeEncryption),
    ("enableTransformerCfnOutputs", bool p.enableTransformerCfnOutputs),
    ("populateOwnerFieldForStaticGroupAuth", bool p.populateOwnerFieldForStaticGroupAuth),
    ("replaceTableUponGsiUpdate", bool p.replaceTableUponGsiUpdate),
    ("respectPrimaryKeyAttributesOnConnectionField",
      bool p.respectPrimaryKeyAttributesOnConnectionField),
    ("sandboxModeEnabled", bool p.sandboxModeEnabled),
    ("secondaryKeyAsGSI", bool p.secondaryKeyAsGsi),
    ("shouldDeepMergeDirectiveConfigDefaults", bool p.shouldDeepMergeDirectiveConfigDefaults),
    ("subscriptionsInheritPrimaryAuth", bool p.subscriptionsInheritPrimaryAuth),
    ("suppressApiKeyGeneration", bool p.suppressApiKeyGeneration),
    ("useSubUsernameForDefaultIdentityClaim", bool p.useSubUsernameForDefaultIdentityClaim)]

/-- A switch that stands as `set` when it is not given. -/
def switch (name : String) (set : Bool) : Record Bool := .withDefault name Decoder.boolean set

def record : Record TransformParameters :=
  TransformParameters.mk
    <$> switch "shouldDeepMergeDirectiveConfigDefaults" true
    <*> switch "disableResolverDeduping" true
    <*> switch "sandboxModeEnabled" false
    <*> switch "useSubUsernameForDefaultIdentityClaim" true
    <*> switch "populateOwnerFieldForStaticGroupAuth" true
    <*> switch "suppressApiKeyGeneration" false
    <*> switch "secondaryKeyAsGSI" true
    <*> switch "enableAutoIndexQueryNames" true
    <*> switch "respectPrimaryKeyAttributesOnConnectionField" true
    <*> switch "enableSearchNodeToNodeEncryption" false
    <*> switch "enableTransformerCfnOutputs" false
    <*> switch "allowDestructiveGraphqlSchemaUpdates" false
    <*> switch "replaceTableUponGsiUpdate" false
    <*> switch "subscriptionsInheritPrimaryAuth" false

def decode : Decoder TransformParameters := record.decode "struct TransformParameters"

end TransformParameters

/-- Values that are known when resources are synthesized. -/
structure SynthParameters where
  environmentName             : String := ""
  apiName                     : String := ""
  accountId                   : Option String := none
  region                      : Option String := none
  authenticatedUserRoleName   : Option String := none
  unauthenticatedUserRoleName : Option String := none
  adminRoles                  : List String := []
  identityPoolId              : Option String := none
  enableIamAccess             : Bool := false
deriving DecidableEq, Repr, Inhabited

namespace SynthParameters

def encode (p : SynthParameters) : Json :=
  obj [("accountId", ofString? p.accountId),
    ("adminRoles", ofStrings p.adminRoles),
    ("amplifyEnvironmentName", str p.environmentName),
    ("apiName", str p.apiName),
    ("authenticatedUserRoleName", ofString? p.authenticatedUserRoleName),
    ("enableIamAccess", bool p.enableIamAccess),
    ("identityPoolId", ofString? p.identityPoolId),
    ("region", ofString? p.region),
    ("unauthenticatedUserRoleName", ofString? p.unauthenticatedUserRoleName)]

def record : Record SynthParameters :=
  SynthParameters.mk
    <$> .withDefault "amplifyEnvironmentName" Decoder.string ""
    <*> .withDefault "apiName" Decoder.string ""
    <*> .optional "accountId" Decoder.string
    <*> .optional "region" Decoder.string
    <*> .optional "authenticatedUserRoleName" Decoder.string
    <*> .optional "unauthenticatedUserRoleName" Decoder.string
    <*> .withDefault "adminRoles" (Decoder.list Decoder.string) []
    <*> .optional "identityPoolId" Decoder.string
    <*> .withDefault "enableIamAccess" Decoder.boolean false

def decode : Decoder SynthParameters := record.decode "struct SynthParameters"

end SynthParameters

end ApiCompiler
