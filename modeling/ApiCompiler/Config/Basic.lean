import ApiCompiler.Config.Authorization
import ApiCompiler.Config.Conflict
import ApiCompiler.Config.Datasource
import ApiCompiler.Config.Factory
import ApiCompiler.Config.Parameters
import ApiCompiler.Fault
import ApiCompiler.Json.Reader
import ApiCompiler.Text.Blank
import ApiCompiler.Text.Part

/-!
# Configuration — the whole of it

* `Config.validate`: refuses what no chain could run with.
* `Config.ofText`: reads a configuration from a JSON text and validates it.
-/

namespace ApiCompiler

open Json

/-- A step of a resolver that a user supplies. -/
structure Slot where
  resolverTypeName  : String
  resolverFieldName : String
  slotName          : String
  requestResolver   : Option String := none
  responseResolver  : Option String := none
deriving DecidableEq, Repr, Inhabited

namespace Slot

def encode (s : Slot) : Json :=
  obj [("requestResolver", ofString? s.requestResolver),
    ("resolverFieldName", str s.resolverFieldName),
    ("resolverTypeName", str s.resolverTypeName),
    ("responseResolver", ofString? s.responseResolver),
    ("slotName", str s.slotName)]

def record : Record Slot :=
  Slot.mk
    <$> .field "resolverTypeName" Decoder.string
    <*> .field "resolverFieldName" Decoder.string
    <*> .field "slotName" Decoder.string
    <*> .optional "requestResolver" Decoder.string
    <*> .optional "responseResolver" Decoder.string

def decode : Decoder Slot := record.decode "struct UserDefinedSlot"

/-- Whether a slot belongs to the resolver of the field. -/
def isOf (s : Slot) (typeName fieldName : String) : Bool :=
  s.resolverTypeName == typeName && s.resolverFieldName == fieldName

end Slot

/-- Everything that a transform is configured with. -/
structure Config where
  factory         : FactoryArgs := {}
  resolverConfig  : Option ResolverConfig := none
  authConfig      : Option AuthConfiguration := none
  /-- Slots by `Type.field`. -/
  slots           : Dict (List Slot) := ∅
  /-- Nested stacks by resource id. -/
  stackMapping    : Dict String := ∅
  parameters      : TransformParameters := {}
  vpcConfig       : Option VpcConfig := none
  layerMapping    : Option LayerMapping := none
deriving DecidableEq

namespace Config

def record : Record Config :=
  Config.mk
    <$> .withDefault "transformersFactoryArgs" FactoryArgs.decode {}
    <*> .optional "resolverConfig" ResolverConfig.decode
    <*> .optional "authConfig" AuthConfiguration.decode
    <*> .withDefault "userDefinedSlots" (Decoder.dict (Decoder.list Slot.decode)) ∅
    <*> .withDefault "stackMapping" (Decoder.dict Decoder.string) ∅
    <*> .withDefault "transformParameters" TransformParameters.decode {}
    <*> .optional "sqlLambdaVpcConfig" VpcConfig.decode
    <*> .optional "rdsLayerMapping" LayerMapping.decode

def decode : Decoder Config := record.decode "struct TransformConfig"

/-- Refuses a role without a name. -/
def checkRoles (roles : List String) : Except Fault Unit :=
  match roles.find? Text.isBlankText with
  | some role =>
    .error (.invalidConfig
      ("admin role names must not be empty (got " ++ Text.quote role ++ ")"))
  | none      => .ok ()

/-- Refuses a network without a name or without subnets. -/
def checkVpc : Option VpcConfig → Except Fault Unit
  | none     => .ok ()
  | some vpc =>
    if Text.isBlankText vpc.vpcId then .error (.invalidConfig "vpcId must not be empty")
    else if vpc.subnets.isEmpty then
      .error (.invalidConfig "vpc config requires at least one subnet")
    else .ok ()

/-- Refuses slots under a key that is not the field of their resolver. -/
def checkSlots (key : String) (slots : List Slot) : Except Fault Unit :=
  match Text.splitAtFirst '.' key.toList with
  | none                        =>
    .error (.invalidConfig
      ("user defined slot key '" ++ key ++ "' is not of the form Type.field"))
  | some (typeName, fieldName) =>
    match slots.find? fun s => !s.isOf (String.ofList typeName) (String.ofList fieldName) with
    | some s =>
      .error (.invalidConfig ("slot '" ++ s.slotName ++ "' targets " ++ s.resolverTypeName ++ "."
        ++ s.resolverFieldName ++ " but is registered under '" ++ key ++ "'"))
    | none   => .ok ()

/-- Refuses what no chain could run with. -/
def validate (c : Config) : Except Fault Unit := do
  checkRoles c.factory.adminRoles
  checkVpc c.vpcConfig
  c.slots.toList.forM fun p => checkSlots p.1 p.2

/-- How deep the values of the storage configuration may nest, which itself lies two deep. -/
def storageDepth : Nat := maxDepth - 2

/-- Reads a configuration from a JSON text and validates it. Only what is looked at has to be
readable, which the storage configuration is as a whole. -/
def ofText (text : String) : Except Fault Config :=
  match Json.read text with
  | none   => .error .malformedConfig
  | some j =>
    match decode .text j with
    | .error e =>
      -- a defect is told only of a text that can be read to its end
      if j.isReadable maxDepth then .error (.invalidConfig e.message) else .error .malformedConfig
    | .ok c    =>
      if c.factory.storageConfig.all (·.isReadable storageDepth) then do c.validate; return c
      else .error .malformedConfig

end Config

end ApiCompiler
