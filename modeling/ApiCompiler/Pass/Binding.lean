import ApiCompiler.Pass.Basic
import ApiCompiler.Text.Part

/-!
# Passes — bound fields

`@function`, `@http` and `@predictions` bind a field to something outside the database: a deployed
function, an endpoint, or an action of a recognition service.

* `HttpPass.splitUrl`: the scheme, the host and the path of an address.
-/

namespace ApiCompiler

open PassAction

/-! ### Functions -/

namespace FunctionPass

/-- Where the name of the environment goes in the name of a function. -/
def envPlaceholder : String := "$\x7benv\x7d"

/-- The stack of what functions need. -/
def stack : String := "FunctionDirectiveStack"

/-- A field and the name of the function that it is bound to, as it is written. -/
structure Binding where
  type     : String
  field    : String
  function : String
deriving DecidableEq, Repr

/-- The bindings that the schema declares, several of one field in their order. -/
def bindings (c : Context) : Except Fault (List Binding) :=
  ((c.schema.fieldsWith "function").flatMap fun (t, f) =>
    (f.directives.filter (·.name == "function")).map fun d => (t, f, d)).mapM
    fun (t, f, d) => do
      let function ← d.requiredString "function" "name" (location t f)
      return ⟨t.name, f.name, function⟩

/-- The address of a function: of a deployed one its own, of any other one by region and account,
which are left open where they are not known. -/
def functionArn (functions : Dict FunctionHandle) (c : Context) (function : String) : String :=
  match functions.find? function with
  | some handle => handle.functionArn
  | none        =>
    "arn:aws:lambda:" ++ c.synth.region.getD "$\x7bAWS::Region\x7d" ++ ":"
      ++ c.synth.accountId.getD "$\x7bAWS::AccountId\x7d" ++ ":function:" ++ function

/-- Whether the name of a function has a place for the name of the environment. -/
def namesEnv (function : String) : Bool :=
  Text.containsPart envPlaceholder.toList function.toList

/-- The name of the environment. -/
def environment (c : Context) : String := (c.resolveParameter "env").getD "NONE"

/-- The name of the function that a binding comes down to. -/
def functionName (c : Context) (b : Binding) : String :=
  if namesEnv b.function then
    String.ofList
      (Text.replaceAll envPlaceholder.toList (environment c).toList b.function.toList)
  else b.function

/-- The id of the datasource of a function. -/
def datasource (function : String) : String :=
  Text.capitalize (String.ofList (function.toList.filter (· != '-'))) ++ "LambdaDataSource"

/-- The datasource of a function. -/
def datasourceOf (function arn : String) : Resource :=
  let r : Resource := { id := datasource function, kind := .dataSource, stack := some stack }
  (r.set "type" (.str "AWS_LAMBDA")).set "functionArn" (.str arn)

/-- The context with a field bound to a function. -/
def bind (functions : Dict FunctionHandle) (c : Context) (b : Binding) : Context :=
  let function := functionName c b
  let c :=
    if namesEnv b.function && environment c == "NONE" then
      c.log .warn ("@function on " ++ b.type ++ "." ++ b.field ++ " references " ++ envPlaceholder
        ++ " but no environment is set")
    else c
  let c := c.addResource (datasourceOf function (functionArn functions c function))
  let c := c.addResolver b.type b.field (datasource function) stack
    (·.push "pipelineFunctions" (.str function))
  c.log .debug ("Bound " ++ b.type ++ "." ++ b.field ++ " to function " ++ function)

/-- Binds every field with `@function`. -/
def apply (functions : Dict FunctionHandle) : PassAction Unit := do
  let bs ← examine bindings
  onContext fun c => bs.foldl (bind functions) c

end FunctionPass

/-- The pass of `@function`. -/
def Pass.function (functions : Dict FunctionHandle) : Pass where
  name  := "function"
  apply := FunctionPass.apply functions

/-! ### Endpoints -/

namespace HttpPass

/-- The methods that an endpoint may be called with. -/
def methods : List String := ["GET", "POST", "PUT", "DELETE", "PATCH"]

/-- The stack of what endpoints need. -/
def stack : String := "HttpStack"

/-- The parts of an address. -/
structure Url where
  scheme : List Char
  host   : List Char
  path   : List Char
deriving DecidableEq, Repr

/-- Where an endpoint is, without the path. -/
def Url.origin (u : Url) : String := String.ofList (u.scheme ++ u.host)

/-- The parts of an address with one of two schemes; without a path it has the root's. -/
def splitUrl (url : List Char) : Option Url := do
  let scheme ← ["https://".toList, "http://".toList].find? (·.isPrefixOf url)
  let rest := url.drop scheme.length
  match rest.dropWhile (· != '/') with
  | []   => return ⟨scheme, rest, ['/']⟩
  | path => return ⟨scheme, rest.takeWhile (· != '/'), path⟩

/-- A field, the endpoint that it is bound to, and how it is called. -/
structure Binding where
  type   : String
  field  : String
  url    : Url
  method : String
deriving DecidableEq, Repr

/-- The binding that a directive on a field declares. -/
def bindingOf (t : TypeDefinition) (f : FieldDefinition) (d : Directive) :
    Except Fault Binding := do
  let url ← d.requiredString "http" "url" (location t f)
  match splitUrl url.toList with
  | none       =>
    refuse "http" ("@http on " ++ location t f ++ " must use an http(s) url, got '" ++ url ++ "'")
  | some parts =>
    let method := Text.asciiUppercase (((d.argument? "method").bind Value.asString?).getD "GET")
    if method ∈ methods then return ⟨t.name, f.name, parts, method⟩
    else refuse "http" ("@http on " ++ location t f ++ " uses unsupported method " ++ method)

/-- The bindings that the schema declares. -/
def bindings (c : Context) : Except Fault (List Binding) :=
  (directedFields c "http").mapM fun (t, f, d) => bindingOf t f d

/-- The id of the datasource of an endpoint: the letters and digits of its host. -/
def datasource (u : Url) : String := String.ofList (u.host.filter Char.isAlphanum) ++ "DataSource"

/-- The datasource of an endpoint. -/
def datasourceOf (u : Url) : Resource :=
  let r : Resource := { id := datasource u, kind := .dataSource, stack := some stack }
  (r.set "type" (.str "HTTP")).set "endpoint" (.str u.origin)

/-- The context with a field bound to an endpoint. -/
def bind (c : Context) (b : Binding) : Context :=
  let c := { c with resources := c.resources.ensure (datasourceOf b.url) }
  c.addResolver b.type b.field (datasource b.url) stack fun r =>
    (r.set "method" (.str b.method)).set "resourcePath" (.str (String.ofList b.url.path))

/-- Binds every field with `@http`. -/
def apply : PassAction Unit := do
  let bs ← examine bindings
  onContext fun c => bs.foldl bind c

end HttpPass

/-- The pass of `@http`. -/
def Pass.http : Pass where
  name  := "http"
  apply := HttpPass.apply

/-! ### Recognition -/

namespace PredictionsPass

/-- The actions that there are. -/
def actions : List String :=
  ["identifyText", "identifyLabels", "convertTextToSpeech", "translateText"]

/-- The stack of what the actions need. -/
def stack : String := "PredictionsDirectiveStack"

/-- The bucket in which the objects lie that are looked at. -/
def bucketName? (storage : Option Json) : Option String :=
  (storage.bind (·.get? "bucketName")).bind Json.asString?

/-- The query and the actions that a field with the directive declares. -/
def usageOf (t : TypeDefinition) (f : FieldDefinition) : Except Fault (String × List String) :=
  let used := ((f.directive? "predictions").bind (·.argument? "actions")).elim [] Value.strings
  if t.name ≠ "Query" then
    refuse "predictions"
      ("@predictions on " ++ location t f ++ " is only supported on Query fields")
  else if used.isEmpty then
    refuse "predictions" ("@predictions on " ++ location t f ++ " requires at least one action")
  else match used.find? (· ∉ actions) with
    | some unknown =>
      refuse "predictions"
        ("@predictions on " ++ location t f ++ " uses unknown action '" ++ unknown ++ "'")
    | none         => .ok (f.name, used)

/-- The queries that the schema declares, with their actions. -/
def usages (c : Context) : Except Fault (List (String × List String)) :=
  (c.schema.fieldsWith "predictions").mapM fun (t, f) => usageOf t f

/-- Access to the bucket. -/
def storageAccess (bucket : String) : Resource :=
  let r : Resource := { id := "PredictionsStorageAccess", kind := .policy, stack := some stack }
  r.set "bucket" (.str bucket)

/-- The datasource of the queries. -/
def datasource : Resource :=
  let r : Resource := { id := "PredictionsDataSource", kind := .dataSource, stack := some stack }
  r.set "type" (.str "NONE")

/-- The context with the resolver of a query. -/
def bind (c : Context) (usage : String × List String) : Context :=
  c.addResolver "Query" usage.1 "PredictionsDataSource" stack
    (·.set "actions" (.ofStrings usage.2))

/-- Binds every query with `@predictions`. -/
def apply (storage : Option Json) : PassAction Unit := do
  let us ← examine usages
  if us.isEmpty then return ()
  else match bucketName? storage with
    | none        =>
      throw (.invalidDirective "predictions"
        "@predictions requires a storage bucket (storageConfig.bucketName)")
    | some bucket =>
      onContext fun c =>
        us.foldl bind ((c.addResource (storageAccess bucket)).addResource datasource)

end PredictionsPass

/-- The pass of `@predictions`. -/
def Pass.predictions (storage : Option Json) : Pass where
  name  := "predictions"
  apply := PredictionsPass.apply storage

end ApiCompiler
