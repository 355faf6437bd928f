/-! The instruction set of the stack machine. -/
namespace Quill

inductive Opcode where
  -- Ends the run of the current code.
  | exit
  -- `( -- v )` pushes the constant operand.
  | push
  | pushNone
  -- `( -- object )` the operand lists key and value codes.
  | pushObject
  -- `( v -- )`
  | pop
  -- `( name -- v )`
  | load
  -- `( v name -- v )` assigns in the nearest scope that declares the name, or defines it.
  | store
  -- `( v name -- )` defines in the current scope.
  | define
  -- `( object key -- v )`
  | getMember
  | add | sub | mul | div | idiv | mod | pow
  | band | bor | bxor | shl | shr
  | and | or
  | eq | ne | lt | le | gt | ge
  | neg | pos | not | bnot | inc | dec
  -- Offsets count from the following instruction.
  | jmp
  -- `( condition -- )` jumps when the condition is falsy.
  | jz
  -- `( condition -- )` jumps when the condition is truthy.
  | jnz
  -- `( -- function )` the operand holds parameters and body.
  | proc
  -- `( function -- result )` the operand lists the argument codes.
  | call
  | ret
  | beginScope | endScope
  deriving DecidableEq, Repr

namespace Opcode

def all : List Opcode :=
  [exit, push, pushNone, pushObject, pop, load, store, define, getMember,
   add, sub, mul, div, idiv, mod, pow, band, bor, bxor, shl, shr, and, or,
   eq, ne, lt, le, gt, ge, neg, pos, not, bnot, inc, dec,
   jmp, jz, jnz, proc, call, ret, beginScope, endScope]

def name : Opcode → String
  | exit => "EXIT"
  | push => "PUSH"
  | pushNone => "PUSHNONE"
  | pushObject => "PUSHOBJECT"
  | pop => "POP"
  | load => "LOAD"
  | store => "STORE"
  | define => "DEFINE"
  | getMember => "GETMEMBER"
  | add => "ADD"
  | sub => "SUB"
  | mul => "MUL"
  | div => "DIV"
  | idiv => "IDIV"
  | mod => "MOD"
  | pow => "POW"
  | band => "BAND"
  | bor => "BOR"
  | bxor => "BXOR"
  | shl => "SHL"
  | shr => "SHR"
  | and => "AND"
  | or => "OR"
  | eq => "EQ"
  | ne => "NE"
  | lt => "LT"
  | le => "LE"
  | gt => "GT"
  | ge => "GE"
  | neg => "NEG"
  | pos => "POS"
  | not => "NOT"
  | bnot => "BNOT"
  | inc => "INC"
  | dec => "DEC"
  | jmp => "JMP"
  | jz => "JZ"
  | jnz => "JNZ"
  | proc => "PROC"
  | call => "CALL"
  | ret => "RETURN"
  | beginScope => "BEGINSCOPE"
  | endScope => "ENDSCOPE"

def ofName? (name : String) : Option Opcode := all.find? (·.name = name)

def toByte (op : Opcode) : UInt8 := UInt8.ofNat op.ctorIdx

def ofByte? (byte : UInt8) : Option Opcode := all[byte.toNat]?

theorem ofByte?_toByte (op : Opcode) : ofByte? op.toByte = some op := by cases op <;> rfl

theorem toByte_get : ∀ i : Fin all.length, (all.get i).toByte = UInt8.ofNat i := by decide

theorem toByte_of_ofByte? {byte : UInt8} {op : Opcode} (h : ofByte? byte = some op) :
    op.toByte = byte := by
  obtain ⟨bound, rfl⟩ := List.getElem?_eq_some_iff.1 h
  simpa using toByte_get ⟨byte.toNat, bound⟩

def isJump : Opcode → Bool
  | jmp | jz | jnz => true
  | _ => false

def isBinary : Opcode → Bool
  | add | sub | mul | div | idiv | mod | pow | band | bor | bxor | shl | shr | and | or
  | eq | ne | lt | le | gt | ge => true
  | _ => false

def isUnary : Opcode → Bool
  | neg | pos | not | bnot | inc | dec => true
  | _ => false

end Opcode

end Quill
