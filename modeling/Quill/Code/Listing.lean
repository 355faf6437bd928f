import Quill.Code
import Quill.Number.Print
import Quill.Text.Write

/-! Listings: code written for readers, an instruction to a line and code in operands as indented
blocks below it. -/
namespace Quill

mutual

def Operand.text : Operand → String
  | .null => "null"
  | .bool b => if b then "true" else "false"
  | .int n => toString n
  | .long n => toString n
  | .double bits => Number.print .marked (Float.ofBits bits)
  | .str s => Text.quotedString s
  | .char c => Text.quotedChar c
  | .code body => "<" ++ toString body.length ++ " instructions>"
  | .list items => "[" ++ Text.commas (operandTexts items) ++ "]"
  | .tuple a b => "(" ++ a.text ++ ", " ++ b.text ++ ")"

def operandTexts : List Operand → List String
  | [] => []
  | x :: rest => x.text :: operandTexts rest

end

namespace Listing

def address (n : Int) : String :=
  if n < 0 then "-" ++ Text.padLeft '0' 3 (toString n.natAbs)
  else Text.padLeft '0' 4 (toString n)

def signedOffset (n : Int) : String := if n < 0 then toString n else "+" ++ toString n

def paramLabel : Operand → String
  | .tuple (.str name) .null => name
  | .tuple (.str name) _ => name ++ "?"
  | .tuple other _ => other.text
  | other => other.text

def named (opcode : Opcode) (rest : String) : String :=
  Text.padRight 11 opcode.name ++ " " ++ rest

def jumpText (opcode : Opcode) (ip : Nat) (offset : Int) : String :=
  let direction := if offset < 0 then "↑" else "↓"
  named opcode (signedOffset offset ++ " " ++ direction ++ " (→ " ++ address (ip + 1 + offset) ++ ")")

def instrText (ip : Nat) : Instr → String
  | .mk opcode operand _ =>
    let plain := if operand matches .null then opcode.name else named opcode operand.text
    match opcode, operand with
    | .proc, .tuple (.list params) _ =>
      named opcode ("fn(" ++ Text.commas (params.map paramLabel) ++ ")")
    | .proc, .tuple other _ => named opcode ("fn(" ++ other.text ++ ")")
    | .call, .list args => named opcode ("; " ++ toString args.length ++ " argument(s)")
    | .pushObject, .list entries =>
      named opcode ("; " ++ toString entries.length ++ " propert(ies)")
    | _, .int offset => if opcode.isJump then jumpText opcode ip offset.toInt else plain
    | _, _ => plain

def instrLines (indent ip : Nat) (marked : Bool) (i : Instr) : List String :=
  let margin := Text.spaces (2 * indent)
  let mark := if marked then "► " else "  "
  let line := margin ++ address ip ++ " " ++ mark ++ instrText ip i
  if marked then [margin ++ "      ┌──────────────────────────────────", line] else [line]

def heading (indent : Nat) (name : String) (length : Nat) : List String :=
  let margin := Text.spaces (2 * indent)
  let rule := margin ++ "════════════════════════════════════════"
  [rule, margin ++ " " ++ name, margin ++ " " ++ toString length ++ " instructions", rule]

def argLabel (index : Nat) : Operand → String
  | .str name => "arg " ++ name
  | _ => "arg #" ++ toString index

mutual

def lines (indent : Nat) (targets : List Nat) (ip : Nat) : List Instr → List String
  | [] => []
  | i :: rest =>
    instrLines indent ip (ip ∈ targets) i ++ blocks (indent + 2) i ++
      lines indent targets (ip + 1) rest

def blocks (indent : Nat) : Instr → List String
  | .mk .proc (.tuple (.list params) body) _ => defaults indent params ++ block indent "body" body
  | .mk .proc (.tuple _ body) _ => block indent "body" body
  | .mk .call (.list args) _ => arguments indent 0 args
  | .mk .pushObject (.list entries) _ => properties indent entries
  | _ => []

def block (indent : Nat) (name : String) : Operand → List String
  | .code body => heading indent name body.length ++ lines indent (jumpTargets body) 0 body
  | _ => []

def defaults (indent : Nat) : List Operand → List String
  | [] => []
  | .tuple name default :: rest =>
    block indent ("default " ++ name.text) default ++ defaults indent rest
  | _ :: rest => defaults indent rest

def arguments (indent index : Nat) : List Operand → List String
  | [] => []
  | .tuple name value :: rest =>
    block indent (argLabel index name) value ++ arguments indent (index + 1) rest
  | _ :: rest => arguments indent (index + 1) rest

def properties (indent : Nat) : List Operand → List String
  | [] => []
  | .tuple key value :: rest =>
    block indent "key" key ++ block indent "value" value ++ properties indent rest
  | _ :: rest => properties indent rest

end

def ofLines (ls : List String) : String := String.join (ls.map (· ++ "\n"))

end Listing

def listInstrs (indent : Nat) (code : Code) : String :=
  Listing.ofLines (Listing.lines indent (jumpTargets code) 0 code)

def listing (code : Code) : String :=
  "=== BYTECODE PROGRAM ===\n\n" ++
    Listing.ofLines (Listing.heading 0 "main" code.length) ++ listInstrs 0 code

end Quill
