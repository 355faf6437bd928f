import Quill.Code

/-! The binary form of code: a version byte and a block. A block is a count and that many
instructions, an instruction an opcode byte and an operand, an operand a tag byte and what the tag
asks for. Counts take four bytes; all numbers come low byte first. -/
namespace Quill

abbrev Bytes := List UInt8

inductive DecodeError where
  | endOfInput
  | endInString
  | unsupportedVersion (version : UInt8)
  | unknownOpcode (byte : UInt8)
  | unknownTag (tag : UInt8)
  | invalidString
  | invalidChar
  | tooDeep
  deriving DecidableEq, Repr

namespace Codec

def version : UInt8 := 1

def maxNesting : Nat := 256

def littleEndian : (width n : Nat) → Bytes
  | 0, _ => []
  | width + 1, n => UInt8.ofNat n :: littleEndian width (n / 256)

def ofLittleEndian : Bytes → Nat
  | [] => 0
  | b :: rest => b.toNat + 256 * ofLittleEndian rest

def count (n : Nat) : Bytes := littleEndian 4 n

mutual

def operandBytes : Operand → Bytes
  | .null => [0]
  | .bool b => [1, if b then 1 else 0]
  | .int n => 2 :: littleEndian 4 n.toUInt32.toNat
  | .long n => 3 :: littleEndian 8 n.toUInt64.toNat
  | .double bits => 4 :: littleEndian 8 bits.toNat
  | .str s => 5 :: count s.utf8ByteSize ++ s.toUTF8.data.toList
  | .char c => 6 :: String.utf8EncodeChar c
  | .code body => 7 :: count body.length ++ instrsBytes body
  | .list items => 8 :: count items.length ++ operandsBytes items
  | .tuple a b => 9 :: operandBytes a ++ operandBytes b

def operandsBytes : List Operand → Bytes
  | [] => []
  | x :: rest => operandBytes x ++ operandsBytes rest

def instrBytes : Instr → Bytes
  | .mk opcode operand _ => opcode.toByte :: operandBytes operand

def instrsBytes : List Instr → Bytes
  | [] => []
  | i :: rest => instrBytes i ++ instrsBytes rest

end

def blockBytes (code : Code) : Bytes := count code.length ++ instrsBytes code

abbrev Reader := StateT Bytes (Except DecodeError)

def readByte : Reader UInt8
  | [] => .error .endOfInput
  | b :: rest => .ok (b, rest)

def cut? : (n : Nat) → Bytes → Option (Bytes × Bytes)
  | 0, bs => some ([], bs)
  | _ + 1, [] => none
  | n + 1, b :: rest => (cut? n rest).map fun (front, back) => (b :: front, back)

def readBytes (short : DecodeError) (n : Nat) : Reader Bytes := fun bs =>
  match cut? n bs with
  | some found => .ok found
  | none => .error short

def readNumber (width : Nat) : Reader Nat :=
  return ofLittleEndian (← readBytes .endOfInput width)

def readCount : Reader Nat := readNumber 4

def readMany (one : Reader α) : (n : Nat) → Reader (List α)
  | 0 => return []
  | n + 1 => do
    let x ← one
    return x :: (← readMany one n)

def stringOf? (bs : Bytes) : Option String := String.fromUTF8? ⟨bs.toArray⟩

def readString : Reader String := do
  let n ← readCount
  match stringOf? (← readBytes .endInString n) with
  | some s => return s
  | none => throw .invalidString

def charWidth? (lead : UInt8) : Option Nat :=
  if lead < 0x80 then some 1
  else if lead < 0xc0 then none
  else if lead < 0xe0 then some 2
  else if lead < 0xf0 then some 3
  else if lead < 0xf8 then some 4
  else none

def charOf? (bs : Bytes) : Option Char := (stringOf? bs).bind fun s => s.toList.head?

def readChar : Reader Char := do
  let lead ← readByte
  match charWidth? lead with
  | none => throw .invalidChar
  | some width =>
    match charOf? (lead :: (← readBytes .endOfInput (width - 1))) with
    | some c => return c
    | none => throw .invalidChar

def readInstr (operand : Reader Operand) : Reader Instr := do
  let byte ← readByte
  match Opcode.ofByte? byte with
  | some opcode => return .mk opcode (← operand) none
  | none => throw (.unknownOpcode byte)

def readBlock (operand : Reader Operand) : Reader Code := do
  readMany (readInstr operand) (← readCount)

def readOperandWith (inner : Option (Reader Operand)) : Reader Operand := do
  let nested (read : Reader Operand → Reader Operand) : Reader Operand :=
    match inner with
    | some operand => read operand
    | none => throw .tooDeep
  let tag ← readByte
  match tag with
  | 0 => return .null
  | 1 => return .bool ((← readByte) != 0)
  | 2 => return .int (UInt32.ofNat (← readNumber 4)).toInt32
  | 3 => return .long (UInt64.ofNat (← readNumber 8)).toInt64
  | 4 => return .double (UInt64.ofNat (← readNumber 8))
  | 5 => return .str (← readString)
  | 6 => return .char (← readChar)
  | 7 => nested fun operand => return .code (← readBlock operand)
  | 8 => nested fun operand => do return .list (← readMany operand (← readCount))
  | 9 => nested fun operand => return .tuple (← operand) (← operand)
  | tag => throw (.unknownTag tag)

def readOperand : (room : Nat) → Reader Operand
  | 0 => readOperandWith none
  | room + 1 => readOperandWith (some (readOperand room))

def readCode : Reader Code := do
  let found ← readByte
  if found = version then readBlock (readOperand maxNesting)
  else throw (.unsupportedVersion found)

end Codec

def encode (code : Code) : Bytes := Codec.version :: Codec.blockBytes code

def decode (bytes : Bytes) : Except DecodeError Code := Codec.readCode.run' bytes

namespace DecodeError

def hexByte (b : UInt8) : String :=
  String.ofList [Nat.digitChar (b.toNat / 16), Nat.digitChar (b.toNat % 16)]

def message : DecodeError → String
  | endOfInput => "i/o error: failed to fill whole buffer"
  | endInString => "i/o error: unexpected end of file"
  | unsupportedVersion v =>
    "unsupported bytecode version " ++ toString v.toNat ++ " (expected " ++
      toString Codec.version.toNat ++ ")"
  | unknownOpcode b => "unknown opcode 0x" ++ hexByte b
  | unknownTag t => "unknown operand tag " ++ toString t.toNat
  | invalidString => "string operand is not valid UTF-8"
  | invalidChar => "char operand is not a valid code point"
  | tooDeep => "operands nested deeper than " ++ toString Codec.maxNesting ++ " levels"

end DecodeError

end Quill
