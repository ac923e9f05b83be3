import ApiCompiler.Json.Basic
import ApiCompiler.Number.Decimal
import ApiCompiler.Text.Quoted

/-!
# JSON — writing

`Json.render` writes a value without any space between its tokens.
-/

namespace ApiCompiler

namespace Json

/-- How `c` is written inside a text: controls, and the line ends outside ASCII, by number. -/
def writeChar (c : Char) : List Char :=
  if c = '"' then ['\\', '"']
  else if c = '\\' then ['\\', '\\']
  else if c = '\n' then ['\\', 'n']
  else if c = '\r' then ['\\', 'r']
  else if c = '\t' then ['\\', 't']
  else if c.toNat < 0x20 ∨ c.toNat = 0x85 ∨ c.toNat = 0x2028 ∨ c.toNat = 0x2029 then
    let ds := Text.hexDigits c.toNat
    ['\\', 'u'] ++ List.replicate (4 - ds.length) '0' ++ ds
  else [c]

/-- A text as it is written. -/
def writeText (s : String) : String :=
  String.ofList ('"' :: s.toList.flatMap writeChar ++ ['"'])

mutual

/-- A value as it is written. -/
def render : Json → String
  | null       => "null"
  | bool true  => "true"
  | bool false => "false"
  | int n      => toString n
  | float x    => Layout.pointed.write x
  | str s      => writeText s
  | arr items  => "[" ++ ",".intercalate (renderItems items) ++ "]"
  | obj fields => "\x7b" ++ ",".intercalate (renderFields fields) ++ "\x7d"

/-- The items of an array as they are written. -/
def renderItems : List Json → List String
  | []      => []
  | v :: vs => render v :: renderItems vs

/-- The fields of an object as they are written. -/
def renderFields : List (String × Json) → List String
  | []             => []
  | (k, v) :: rest => (writeText k ++ ":" ++ render v) :: renderFields rest

end

end Json

end ApiCompiler
