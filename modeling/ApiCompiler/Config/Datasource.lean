import ApiCompiler.Json.Decoder

/-!
# Configuration — datasources

Where the records of a model are kept, and how a relational database is reached.
-/

namespace ApiCompiler

open Json

/-- A kind of database. -/
inductive DbType where
  | dynamoDb
  | mysql
  | postgres
deriving DecidableEq, Repr, Inhabited

namespace DbType

/-- The name of a kind of database in documents. -/
def name : DbType → String
  | dynamoDb => "DDB"
  | mysql    => "MYSQL"
  | postgres => "POSTGRES"

/-- Whether the database is relational. -/
def isSql : DbType → Bool
  | dynamoDb => false
  | mysql    => true
  | postgres => true

def encode (t : DbType) : Json := str t.name

def decode : Decoder DbType :=
  Decoder.variant ([dynamoDb, mysql, postgres].map fun t => (t.name, t))

end DbType

/-- The datasource that a model is bound to. -/
structure DatasourceType where
  dbType      : DbType
  provisionDb : Bool
deriving DecidableEq, Repr, Inhabited

namespace DatasourceType

/-- The datasource of a model that is not bound to one. -/
def unbound : DatasourceType := ⟨.dynamoDb, true⟩

def encode (d : DatasourceType) : Json :=
  obj [("dbType", d.dbType.encode), ("provisionDb", bool d.provisionDb)]

def record : Record DatasourceType :=
  DatasourceType.mk
    <$> .field "dbType" DbType.decode
    <*> .field "provisionDb" Decoder.boolean

def decode : Decoder DatasourceType := record.decode "struct DatasourceType"

end DatasourceType

/-- Where the secrets of a connection to a relational database are stored. -/
structure ConnectionSecrets where
  username : String
  password : String
  host     : String
  database : String
  port     : String
deriving DecidableEq, Repr, Inhabited

namespace ConnectionSecrets

def encode (s : ConnectionSecrets) : Json :=
  obj [("database", str s.database), ("host", str s.host), ("password", str s.password),
    ("port", str s.port), ("username", str s.username)]

def record : Record ConnectionSecrets :=
  ConnectionSecrets.mk
    <$> .field "username" Decoder.string
    <*> .field "password" Decoder.string
    <*> .field "host" Decoder.string
    <*> .field "database" Decoder.string
    <*> .field "port" Decoder.string

def decode : Decoder ConnectionSecrets := record.decode "struct SqlConnectionSecrets"

end ConnectionSecrets

/-- A subnet and the zone it lies in. -/
structure SubnetZone where
  subnetId         : String
  availabilityZone : String
deriving DecidableEq, Repr, Inhabited

namespace SubnetZone

def encode (s : SubnetZone) : Json :=
  obj [("availabilityZone", str s.availabilityZone), ("subnetId", str s.subnetId)]

def record : Record SubnetZone :=
  SubnetZone.mk
    <$> .field "subnetId" Decoder.string
    <*> .field "availabilityZone" Decoder.string

def decode : Decoder SubnetZone := record.decode "struct SubnetAvailabilityZone"

end SubnetZone

/-- The network in which the resolver functions of relational models run. -/
structure VpcConfig where
  vpcId            : String
  securityGroupIds : List String
  subnets          : List SubnetZone
deriving DecidableEq, Repr, Inhabited

namespace VpcConfig

def encode (v : VpcConfig) : Json :=
  obj [("securityGroupIds", ofStrings v.securityGroupIds),
    ("subnetAvailabilityZoneConfig", arr (v.subnets.map SubnetZone.encode)),
    ("vpcId", str v.vpcId)]

def record : Record VpcConfig :=
  VpcConfig.mk
    <$> .field "vpcId" Decoder.string
    <*> .field "securityGroupIds" (Decoder.list Decoder.string)
    <*> .field "subnetAvailabilityZoneConfig" (Decoder.list SubnetZone.decode)

def decode : Decoder VpcConfig := record.decode "struct VpcConfig"

end VpcConfig

/-- The published layer with the database drivers. -/
structure LayerVersion where
  layerRegion : String
deriving DecidableEq, Repr, Inhabited

namespace LayerVersion

def encode (l : LayerVersion) : Json := obj [("layerRegion", str l.layerRegion)]

def record : Record LayerVersion := LayerVersion.mk <$> .field "layerRegion" Decoder.string

def decode : Decoder LayerVersion := record.decode "struct LayerVersion"

end LayerVersion

/-- The layer of each region. -/
abbrev LayerMapping := Dict LayerVersion

namespace LayerMapping

def encode (m : LayerMapping) : Json := ofDict (m.mapValues fun _ => LayerVersion.encode)

def decode : Decoder LayerMapping := Decoder.dict LayerVersion.decode

end LayerMapping

end ApiCompiler
