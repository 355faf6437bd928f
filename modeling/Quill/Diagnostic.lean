import Quill.Token
import Quill.Text.Write

/-! Diagnostics: what the passes and the machine report without stopping, in order. -/
namespace Quill

inductive Severity where
  | warn | error
  deriving DecidableEq, Repr

inductive DiagnosticCode where
  | b0001 | b0002 | b0003 | b0004 | b0005 | b0006 | b0007 | b0008 | b0009 | b0010
  | t0001 | t0002 | t0003 | t0004 | t0005 | t0006
  | g0001 | g0002
  | r0001 | r0002 | r0003 | r0004 | r0005 | r0006 | r0007 | r0008 | r0009 | r0010 | r0011
  deriving DecidableEq, Repr

namespace DiagnosticCode

def all : List DiagnosticCode :=
  [b0001, b0002, b0003, b0004, b0005, b0006, b0007, b0008, b0009, b0010,
   t0001, t0002, t0003, t0004, t0005, t0006, g0001, g0002,
   r0001, r0002, r0003, r0004, r0005, r0006, r0007, r0008, r0009, r0010, r0011]

def text : DiagnosticCode → String
  | b0001 => "B0001"
  | b0002 => "B0002"
  | b0003 => "B0003"
  | b0004 => "B0004"
  | b0005 => "B0005"
  | b0006 => "B0006"
  | b0007 => "B0007"
  | b0008 => "B0008"
  | b0009 => "B0009"
  | b0010 => "B0010"
  | t0001 => "T0001"
  | t0002 => "T0002"
  | t0003 => "T0003"
  | t0004 => "T0004"
  | t0005 => "T0005"
  | t0006 => "T0006"
  | g0001 => "G0001"
  | g0002 => "G0002"
  | r0001 => "R0001"
  | r0002 => "R0002"
  | r0003 => "R0003"
  | r0004 => "R0004"
  | r0005 => "R0005"
  | r0006 => "R0006"
  | r0007 => "R0007"
  | r0008 => "R0008"
  | r0009 => "R0009"
  | r0010 => "R0010"
  | r0011 => "R0011"

def ofText? (text : String) : Option DiagnosticCode := all.find? (·.text = text)

end DiagnosticCode

structure Diagnostic where
  code : DiagnosticCode
  message : String
  severity : Severity
  span : Span
  deriving DecidableEq, Repr

def Diagnostic.error (code : DiagnosticCode) (span : Span) (message : String) : Diagnostic :=
  ⟨code, message, .error, span⟩

def Diagnostic.warn (code : DiagnosticCode) (span : Span) (message : String) : Diagnostic :=
  ⟨code, message, .warn, span⟩

def Diagnostic.text (d : Diagnostic) : String :=
  let level := match d.severity with
    | .warn => "warning"
    | .error => "error"
  level ++ "[" ++ d.code.text ++ "] " ++ d.span.text ++ ": " ++ d.message

abbrev Diagnostics := List Diagnostic

namespace Diagnostics

def hasErrors (ds : Diagnostics) : Bool := ds.any (·.severity = .error)

def contains (ds : Diagnostics) (code : DiagnosticCode) : Bool := ds.any (·.code = code)

def text (ds : Diagnostics) : String := String.intercalate "\n" (ds.map Diagnostic.text)

def jsonEntry (d : Diagnostic) : String :=
  let level := match d.severity with
    | .warn => "warn"
    | .error => "error"
  String.intercalate "\n" [
    "  \x7b",
    "    \"code\": " ++ Text.jsonString d.code.text ++ ",",
    "    \"message\": " ++ Text.jsonString d.message ++ ",",
    "    \"level\": " ++ Text.jsonString level ++ ",",
    "    \"span\": \x7b",
    "      \"line\": " ++ toString d.span.line ++ ",",
    "      \"col\": " ++ toString d.span.col,
    "    \x7d",
    "  \x7d"]

def json : Diagnostics → String
  | [] => "[]"
  | ds => "[\n" ++ String.intercalate ",\n" (ds.map jsonEntry) ++ "\n]"

end Diagnostics

end Quill
