import ApiCompiler.Json.Decoder
import ApiCompiler.Text.Case

/-!
# Log — diagnostics

An entry has a level and a message. A level is read from its name in any letter case; what is no
name of a level counts as an error.
-/

namespace ApiCompiler

open Json

/-- How grave a diagnostic is. -/
inductive LogLevel where
  | error
  | warn
  | info
  | debug
deriving DecidableEq, Repr, Inhabited

namespace LogLevel

/-- The name of a level. -/
def name : LogLevel → String
  | error => "ERROR"
  | warn  => "WARN"
  | info  => "INFO"
  | debug => "DEBUG"

/-- The level of a name. -/
def ofName (s : String) : LogLevel :=
  let s := Text.asciiUppercase s
  if s = "WARN" ∨ s = "WARNING" then warn
  else if s = "INFO" then info
  else if s = "DEBUG" then debug
  else error

def encode (l : LogLevel) : Json := str l.name

def decode : Decoder LogLevel := fun source j => ofName <$> Decoder.string source j

theorem ofName_name (l : LogLevel) : ofName l.name = l := by cases l <;> decide +kernel

end LogLevel

/-- A diagnostic. -/
structure LogEntry where
  level   : LogLevel
  message : String
deriving DecidableEq, Repr, Inhabited

namespace LogEntry

def encode (e : LogEntry) : Json := obj [("level", e.level.encode), ("message", str e.message)]

def record : Record LogEntry :=
  LogEntry.mk <$> .field "level" LogLevel.decode <*> .field "message" Decoder.string

def decode : Decoder LogEntry := record.decode "struct LogEntry"

/-- An entry in one line. -/
def line (e : LogEntry) : String := e.level.name ++ ":" ++ e.message

end LogEntry

end ApiCompiler
