import ApiCompiler.Pass.Basic

/-!
# Passes — authorization

`@auth` gives a model rules. They are collected from the schema and from what join models connect,
checked against what the API is configured for, and attached to every resolver of the model's
datasource.

* `collectRules`, `inheritRules`: where the rules of a model come from.
* `attachRules`: where they go.
-/

namespace ApiCompiler.AuthPass

open PassAction

/-- The id of the policy for the administrators' roles. -/
def adminPolicy : String := "AdminRolePolicy"

/-- The id of the key that callers use by default. -/
def defaultApiKey : String := "GraphQLAPIDefaultApiKey"

/-- For how many days a key is good if nothing is said about it. -/
def defaultExpirationDays : UInt32 := 7

/-- The rules that `@auth` on a type declares. -/
def rulesOf (c : Context) (t : TypeDefinition) : Except Fault (List AuthRule) := do
  if !c.isModel t.name then
    refuse "auth" ("@auth on '" ++ t.name ++ "' requires the type to be a @model")
  else match (t.directive? "auth").bind (·.argument? "rules") with
    | none   => refuse "auth" ("@auth on '" ++ t.name ++ "' requires a 'rules' list")
    | some v =>
      match Json.Decoder.list AuthRule.decode .value v.toJson with
      | .error e  =>
        refuse "auth" ("invalid @auth rules on '" ++ t.name ++ "': " ++ e.message)
      | .ok rules =>
        if rules.any (·.lacksGroups) then
          refuse "auth" ("@auth groups rule on '" ++ t.name ++ "' must list at least one group")
        else return rules

/-- Takes up the rules of one type. -/
def collectFrom (t : TypeDefinition) : PassAction Unit := do
  let rules ← examine (rulesOf · t)
  onMemory (·.extendRules t.name rules)

/-- Takes up the rules that the schema declares. -/
def collectRules : PassAction Unit := do
  Action.forEach collectFrom ((← context).schema.typesWith "auth")

/-- The memory in which each join model has the rules of what it connects; a join model takes
over what its models had before any join model did. -/
def inheritRules (m : Memory) : Memory :=
  m.joinModels.toList.foldl
    (fun n (join, sources) => n.extendRules join (sources.flatMap m.rulesFor)) m

/-- Whether models without rules are open to everyone. -/
def isSandbox (c : Context) : Bool :=
  c.parameters.sandboxModeEnabled && c.authConfig.default.authenticationType == .apiKey

/-- Opens a model without rules, or warns of it. -/
def settleModel (model : String) : PassAction Unit := do
  if !((← memory).rulesFor model).isEmpty then return ()
  else if isSandbox (← context) then onMemory (·.extendRules model [{ allow := .everyone }])
  else
    log .warn ("Model '" ++ model
      ++ "' has no @auth rules; access falls back to the default authorization mode")

/-- Refuses a rule that needs what the API is not configured for. -/
def checkRule (config : AuthConfiguration) (model : String) (r : AuthRule) :
    Except Fault Unit := do
  let type ← r.authenticationType
  if config.supports type then return ()
  else refuse "auth" ("@auth rule on '" ++ model ++ "' requires " ++ type.name
    ++ " but the API does not enable it")

/-- Refuses the first rule, by model, that needs what the API is not configured for. -/
def checkRules (config : AuthConfiguration) (m : Memory) : Except Fault Unit :=
  m.rules.toList.forM fun (model, rules) => rules.forM (checkRule config model)

/-- Whether a resource is a resolver of a model's datasource. -/
def isResolverOf (model : String) (r : Resource) : Bool :=
  r.kind == .resolver && r.get? "dataSource" == some (.str (datasourceId model))

/-- The context with rules on the resolvers of a model. -/
def attachRules (m : Memory) (c : Context) (model : String) : Context :=
  ((c.resources.toList.filter (isResolverOf model)).map (·.id)).foldl
    (fun c id => c.modifyResource id (·.set "authRules" (encodeRules (m.rulesFor model)))) c

/-- The policy for the administrators' roles, where there are any. -/
def policy? (args : FactoryArgs) : Option Resource :=
  if args.adminRoles.isEmpty then none
  else
    let r : Resource := { id := adminPolicy, kind := .policy }
    let r := r.set "roles" (.ofStrings args.adminRoles)
    some (match args.identityPoolId with
      | some pool => r.set "identityPoolId" (.str pool)
      | none      => r)

/-- The key that callers use by default, where they use one and it is to be made. -/
def apiKey? (c : Context) : Option Resource :=
  let mode := c.authConfig.default
  if mode.authenticationType == .apiKey && !c.parameters.suppressApiKeyGeneration then
    let r : Resource := { id := defaultApiKey, kind := .apiKey }
    some (r.set "expirationDays"
      (.int (mode.apiKeyExpirationDays.getD defaultExpirationDays).toNat))
  else none

/-- The context with a resource, where there is one. -/
def addOptional (c : Context) (r : Option Resource) : Context :=
  match r with
  | some r => c.addResource r
  | none   => c

/-- How many rules are remembered, of how many models. -/
def countRules (m : Memory) : String :=
  "@auth applied " ++ toString m.rules.values.flatten.length ++ " rule(s) across "
    ++ toString m.rules.size ++ " model(s)"

/-- Collects the rules, checks them, and attaches them to the resolvers of each model. -/
def apply (args : FactoryArgs) : PassAction Unit := do
  -- all rules are known before any is held against the configuration
  collectRules
  onMemory inheritRules
  let models := ((← context).schema.typesWith "model").map (·.name)
  Action.forEach settleModel models
  let m ← memory
  examine fun c => checkRules c.authConfig m
  -- nothing is attached where a rule was refused
  onContext fun c => models.foldl (attachRules m) c
  onContext fun c => addOptional (addOptional c (policy? args)) (apiKey? c)
  log .info (countRules m)

end ApiCompiler.AuthPass

namespace ApiCompiler

/-- The pass of `@auth`. -/
def Pass.auth (args : FactoryArgs) : Pass where
  name      := "auth"
  dependsOn := ["model"]
  apply     := AuthPass.apply args

end ApiCompiler
