import ApiCompiler.Dict
import ApiCompiler.Number.Binary64

/-!
# JSON — values

Numbers are integers or binary64 floats, and the two kinds are told apart. An object is a list of
fields; the fields of a text keep its order, `ofDict` and `canonical` give rising keys.

* `merge`: a document laid over another one, object by object.
* `merge_of_not_obj`: what is not an object replaces what it is laid over.
-/

namespace ApiCompiler

/-- A JSON value. -/
inductive Json where
  | null
  | bool (b : Bool)
  | int (n : Int)
  | float (x : Binary64)
  | str (s : String)
  | arr (items : List Json)
  | obj (fields : List (String × Json))
deriving Repr, Inhabited

namespace Json

mutual

/-- Decides whether two values are the same. -/
def decEq : (a b : Json) → Decidable (a = b)
  | null, null       => isTrue rfl
  | bool a, bool b   => decidable_of_iff (a = b) (by simp)
  | int a, int b     => decidable_of_iff (a = b) (by simp)
  | float a, float b => decidable_of_iff (a = b) (by simp)
  | str a, str b     => decidable_of_iff (a = b) (by simp)
  | arr a, arr b     =>
    match decEqItems a b with
    | isTrue h  => isTrue (h ▸ rfl)
    | isFalse h => isFalse fun e => h (Json.arr.inj e)
  | obj a, obj b     =>
    match decEqFields a b with
    | isTrue h  => isTrue (h ▸ rfl)
    | isFalse h => isFalse fun e => h (Json.obj.inj e)
  | null, bool _ | null, int _ | null, float _ | null, str _ | null, arr _ | null, obj _
  | bool _, null | bool _, int _ | bool _, float _ | bool _, str _ | bool _, arr _
  | bool _, obj _
  | int _, null | int _, bool _ | int _, float _ | int _, str _ | int _, arr _ | int _, obj _
  | float _, null | float _, bool _ | float _, int _ | float _, str _ | float _, arr _
  | float _, obj _
  | str _, null | str _, bool _ | str _, int _ | str _, float _ | str _, arr _ | str _, obj _
  | arr _, null | arr _, bool _ | arr _, int _ | arr _, float _ | arr _, str _ | arr _, obj _
  | obj _, null | obj _, bool _ | obj _, int _ | obj _, float _ | obj _, str _
  | obj _, arr _     => isFalse (by intro h; cases h)

/-- Decides whether two lists of values are the same. -/
def decEqItems : (a b : List Json) → Decidable (a = b)
  | [], []           => isTrue rfl
  | [], _ :: _       => isFalse (by intro h; cases h)
  | _ :: _, []       => isFalse (by intro h; cases h)
  | a :: as, b :: bs =>
    match decEq a b, decEqItems as bs with
    | isTrue h, isTrue h' => isTrue (by rw [h, h'])
    | isFalse h, _        => isFalse fun e => h (List.cons.inj e).1
    | _, isFalse h        => isFalse fun e => h (List.cons.inj e).2

/-- Decides whether two lists of fields are the same. -/
def decEqFields : (a b : List (String × Json)) → Decidable (a = b)
  | [], []                     => isTrue rfl
  | [], _ :: _                 => isFalse (by intro h; cases h)
  | _ :: _, []                 => isFalse (by intro h; cases h)
  | (k, a) :: as, (l, b) :: bs =>
    match String.decEq k l, decEq a b, decEqFields as bs with
    | isTrue hk, isTrue h, isTrue h' => isTrue (by rw [hk, h, h'])
    | isFalse h, _, _ => isFalse fun e => h (Prod.mk.inj (List.cons.inj e).1).1
    | _, isFalse h, _ => isFalse fun e => h (Prod.mk.inj (List.cons.inj e).1).2
    | _, _, isFalse h => isFalse fun e => h (List.cons.inj e).2

end

instance : DecidableEq Json := decEq

/-- The object with the bindings of a dictionary. -/
def ofDict (d : Dict Json) : Json := obj d.toList

/-- The object of a list of fields, with rising keys and the last value of a repeated key. -/
def mkObj (fields : List (String × Json)) : Json := ofDict (Dict.ofList fields)

/-- The array of a list of texts. -/
def ofStrings (items : List String) : Json := arr (items.map str)

/-- A float as a value; what is not a finite number has none and becomes null. -/
def ofFloat (x : Binary64) : Json := if x.isFinite then float x else null

/-- A text, or null for none. -/
def ofString? : Option String → Json
  | some s => str s
  | none   => null

/-- The value of a field of an object. -/
def get? (key : String) : Json → Option Json
  | obj fields => Dict.findList? key fields
  | _          => none

/-- The text of a text value. -/
def asString? : Json → Option String
  | str s => some s
  | _     => none

/-- Whether the value is an object. -/
def isObj : Json → Bool
  | obj _ => true
  | _     => false

mutual

/-- The value with the keys of every object rising, the last value of a repeated key. -/
def canonical : Json → Json
  | arr items  => arr (canonicalItems items)
  | obj fields => mkObj (canonicalFields fields)
  | other      => other

/-- Every item of an array in canonical form. -/
def canonicalItems : List Json → List Json
  | []      => []
  | v :: vs => canonical v :: canonicalItems vs

/-- Every field of an object with its value in canonical form. -/
def canonicalFields : List (String × Json) → List (String × Json)
  | []             => []
  | (k, v) :: rest => (k, canonical v) :: canonicalFields rest

end

mutual

/-- The value with one zero for both of them in every number. -/
def unsignZeros : Json → Json
  | float x    => float x.unsignZero
  | arr items  => arr (unsignZerosItems items)
  | obj fields => obj (unsignZerosFields fields)
  | other      => other

/-- Every item of an array with one zero for both of them. -/
def unsignZerosItems : List Json → List Json
  | []      => []
  | v :: vs => unsignZeros v :: unsignZerosItems vs

/-- Every field of an object with one zero for both of them. -/
def unsignZerosFields : List (String × Json) → List (String × Json)
  | []             => []
  | (k, v) :: rest => (k, unsignZeros v) :: unsignZerosFields rest

end

mutual

/-- `source` laid over `target`: two objects are merged field by field, anything else of
`source` replaces what `target` has. -/
def merge (target : Json) : (source : Json) → Json
  | obj fields =>
    match target with
    | obj below => obj (mergeFields below fields)
    | _         => obj fields
  | other      => other

/-- The fields of an object with those of another laid over them. -/
def mergeFields (below : List (String × Json)) : List (String × Json) → List (String × Json)
  | []             => below
  | (k, v) :: rest =>
    match Dict.findList? k below with
    | some w => mergeFields (Dict.insertList k (merge w v) below) rest
    | none   => mergeFields (Dict.insertList k v below) rest

end

/-- `source` laid over `target`, where each field of `source` replaces the field as a whole; a
`target` that is not an object stays as it is. -/
def mergeShallow (target source : Json) : Json :=
  match target, source with
  | obj below, obj fields => obj (fields.foldl (fun b f => Dict.insertList f.1 f.2 b) below)
  | other, _              => other

theorem merge_of_not_obj {source : Json} (h : source.isObj = false) (target : Json) :
    merge target source = source := by
  cases source with
  | obj fields => simp [isObj] at h
  | _ => simp [merge]

end Json

end ApiCompiler
