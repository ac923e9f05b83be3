import ApiCompiler.Json.Decoder
import ApiCompiler.Json.Writer

/-!
# Configuration — what passes are built from

* `FactoryArgs`: the arguments that single passes take when a chain is built.
* `FactoryArgs.describe`: a listing of them in one line.
-/

namespace ApiCompiler

open Json

/-- A deployed function that fields may be bound to. -/
structure FunctionHandle where
  functionName : String
  functionArn  : String
deriving DecidableEq, Repr, Inhabited

namespace FunctionHandle

def encode (h : FunctionHandle) : Json :=
  obj [("functionArn", str h.functionArn), ("functionName", str h.functionName)]

def record : Record FunctionHandle :=
  FunctionHandle.mk
    <$> .field "functionName" Decoder.string
    <*> .field "functionArn" Decoder.string

def decode : Decoder FunctionHandle := record.decode "struct FunctionHandle"

/-- A function in words. -/
def describe (h : FunctionHandle) : String :=
  "FunctionHandle \x7b function_name: " ++ Text.quote h.functionName
    ++ ", function_arn: " ++ Text.quote h.functionArn ++ " \x7d"

end FunctionHandle

/-- The arguments that passes take when a chain is built. -/
structure FactoryArgs where
  storageConfig   : Option Json := none
  adminRoles      : List String := []
  identityPoolId  : Option String := none
  functionNameMap : Dict FunctionHandle := ∅
deriving DecidableEq, Inhabited

/-- A listing of items in brackets. -/
def bracketed (items : List String) : String := "[" ++ ", ".intercalate items ++ "]"

/-- A listing of items in braces. -/
def braced (items : List String) : String := "\x7b" ++ ", ".intercalate items ++ "\x7d"

/-- An optional item in words. -/
def optionWords : Option String → String
  | none   => "None"
  | some s => "Some(" ++ s ++ ")"

mutual

/-- A JSON value in words. -/
def Json.words : Json → String
  | null       => "Null"
  | bool b     => "Bool(" ++ toString b ++ ")"
  | int n      => "Number(" ++ toString n ++ ")"
  | float x    => "Number(" ++ Layout.pointed.write x ++ ")"
  | str s      => "String(" ++ Text.quote s ++ ")"
  | arr items  => "Array " ++ bracketed (wordsItems items)
  | obj fields => "Object " ++ braced (wordsFields fields)

/-- The items of an array in words. -/
def Json.wordsItems : List Json → List String
  | []      => []
  | v :: vs => v.words :: wordsItems vs

/-- The fields of an object in words. -/
def Json.wordsFields : List (String × Json) → List String
  | []             => []
  | (k, v) :: rest => (Text.quote k ++ ": " ++ v.words) :: wordsFields rest

end

namespace FactoryArgs

def record : Record FactoryArgs :=
  FactoryArgs.mk
    <$> .optional "storageConfig" Decoder.any
    <*> .withDefault "adminRoles" (Decoder.list Decoder.string) []
    <*> .optional "identityPoolId" Decoder.string
    <*> .withDefault "functionNameMap" (Decoder.dict FunctionHandle.decode) ∅

def decode : Decoder FactoryArgs := record.decode "struct TransformerFactoryArgs"

/-- The arguments in one line, with the names of the custom passes; one that is in use at the
moment has no name to show. -/
def describe (a : FactoryArgs) (custom : List (Option String)) : String :=
  "TransformerFactoryArgs \x7b storage_config: " ++ optionWords (a.storageConfig.map Json.words)
    ++ ", admin_roles: " ++ bracketed (a.adminRoles.map Text.quote)
    ++ ", identity_pool_id: " ++ optionWords (a.identityPoolId.map Text.quote)
    ++ ", custom_transformers: "
    ++ bracketed (custom.map fun name => Text.quote (name.getD "<busy>"))
    ++ ", function_name_map: "
    ++ braced (a.functionNameMap.toList.map fun p => Text.quote p.1 ++ ": " ++ p.2.describe)
    ++ " \x7d"

end FactoryArgs

end ApiCompiler
