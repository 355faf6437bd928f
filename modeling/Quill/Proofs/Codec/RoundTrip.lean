import Quill.Proofs.Codec.Primitives

/-! Reading code back from its binary form. The form keeps opcodes and operands and drops sources;
operands that nest deeper than a reader goes are refused, whatever follows them. -/
namespace Quill

mutual

def Operand.nesting : Operand → Nat
  | .null | .bool _ | .int _ | .long _ | .double _ | .str _ | .char _ => 0
  | .code body => instrsNesting body + 1
  | .list items => operandsNesting items + 1
  | .tuple a b => max a.nesting b.nesting + 1

def operandsNesting : List Operand → Nat
  | [] => 0
  | x :: rest => max x.nesting (operandsNesting rest)

def Instr.nesting : Instr → Nat
  | .mk _ operand _ => operand.nesting

def instrsNesting : List Instr → Nat
  | [] => 0
  | i :: rest => max i.nesting (instrsNesting rest)

end

mutual

def Operand.Counted : Operand → Prop
  | .null | .bool _ | .int _ | .long _ | .double _ | .char _ => True
  | .str s => s.utf8ByteSize < 2 ^ 32
  | .code body => body.length < 2 ^ 32 ∧ InstrsCounted body
  | .list items => items.length < 2 ^ 32 ∧ OperandsCounted items
  | .tuple a b => a.Counted ∧ b.Counted

def OperandsCounted : List Operand → Prop
  | [] => True
  | x :: rest => x.Counted ∧ OperandsCounted rest

def Instr.Counted : Instr → Prop
  | .mk _ operand _ => operand.Counted

def InstrsCounted : List Instr → Prop
  | [] => True
  | i :: rest => i.Counted ∧ InstrsCounted rest

end

mutual

def Operand.unsourced : Operand → Operand
  | .code body => .code (instrsUnsourced body)
  | .list items => .list (operandsUnsourced items)
  | .tuple a b => .tuple a.unsourced b.unsourced
  | .null => .null
  | .bool b => .bool b
  | .int n => .int n
  | .long n => .long n
  | .double bits => .double bits
  | .str s => .str s
  | .char c => .char c

def operandsUnsourced : List Operand → List Operand
  | [] => []
  | x :: rest => x.unsourced :: operandsUnsourced rest

def Instr.unsourced : Instr → Instr
  | .mk opcode operand _ => .mk opcode operand.unsourced none

def instrsUnsourced : List Instr → List Instr
  | [] => []
  | i :: rest => i.unsourced :: instrsUnsourced rest

end

namespace Codec

def answer (room nesting : Nat) (x : α) (rest : Bytes) : Except DecodeError (α × Bytes) :=
  if nesting ≤ room then .ok (x, rest) else .error .tooDeep

theorem answerFlat (room : Nat) (x : α) (rest : Bytes) : answer room 0 x rest = .ok (x, rest) :=
  if_pos (Nat.zero_le room)

theorem answerInner (room nesting : Nat) (x : α) (rest : Bytes) :
    answer (room + 1) (nesting + 1) x rest = answer room nesting x rest := by
  simp only [answer, Nat.add_le_add_iff_right]

theorem answerMap (room nesting : Nat) (x : α) (make : α → β) (rest : Bytes) :
    (answer room nesting x rest).map (fun (x, rest) => (make x, rest)) =
      answer room nesting (make x) rest := by
  unfold answer
  split <;> rfl

theorem mapRead (read : Reader α) (make : α → β) (bytes : Bytes) :
    (do return make (← read)) bytes = (read bytes).map (fun (x, rest) => (make x, rest)) := by
  cases found : read bytes with
  | error e => rw [bindRefused found]; rfl
  | ok pair => rw [bindRead found]; rfl

theorem readBoolWritten (inner : Option (Reader Operand)) (b : Bool) (rest : Bytes) :
    readOperandWith inner (operandBytes (.bool b) ++ rest) = .ok (.bool b, rest) := by
  cases b <;> rfl

theorem readIntWritten (inner : Option (Reader Operand)) (n : Int32) (rest : Bytes) :
    readOperandWith inner (operandBytes (.int n) ++ rest) = .ok (.int n, rest) := by
  have bound : n.toUInt32.toNat < 256 ^ 4 := n.toUInt32.toNat_lt
  change (do return Operand.int (UInt32.ofNat (← readNumber 4)).toInt32)
    (littleEndian 4 n.toUInt32.toNat ++ rest) = _
  rw [mapRead, readNumberWritten bound]
  simp [Except.map]

theorem readLongWritten (inner : Option (Reader Operand)) (n : Int64) (rest : Bytes) :
    readOperandWith inner (operandBytes (.long n) ++ rest) = .ok (.long n, rest) := by
  have bound : n.toUInt64.toNat < 256 ^ 8 := n.toUInt64.toNat_lt
  change (do return Operand.long (UInt64.ofNat (← readNumber 8)).toInt64)
    (littleEndian 8 n.toUInt64.toNat ++ rest) = _
  rw [mapRead, readNumberWritten bound]
  simp [Except.map]

theorem readDoubleWritten (inner : Option (Reader Operand)) (bits : UInt64) (rest : Bytes) :
    readOperandWith inner (operandBytes (.double bits) ++ rest) = .ok (.double bits, rest) := by
  have bound : bits.toNat < 256 ^ 8 := bits.toNat_lt
  change (do return Operand.double (UInt64.ofNat (← readNumber 8)))
    (littleEndian 8 bits.toNat ++ rest) = _
  rw [mapRead, readNumberWritten bound]
  simp [Except.map]

theorem readStrWritten (inner : Option (Reader Operand)) {s : String}
    (bound : s.utf8ByteSize < 2 ^ 32) (rest : Bytes) :
    readOperandWith inner (operandBytes (.str s) ++ rest) = .ok (.str s, rest) := by
  change (do return Operand.str (← readString))
    (count s.utf8ByteSize ++ s.toUTF8.data.toList ++ rest) = _
  rw [mapRead, List.append_assoc, readStringWritten s bound]
  rfl

theorem readCharOperandWritten (inner : Option (Reader Operand)) (c : Char) (rest : Bytes) :
    readOperandWith inner (operandBytes (.char c) ++ rest) = .ok (.char c, rest) := by
  change (do return Operand.char (← readChar)) (String.utf8EncodeChar c ++ rest) = _
  rw [mapRead, readCharWritten]
  rfl

theorem readFlat {x : Operand} {rest : Bytes} {room : Nat} (flat : x.nesting = 0)
    (found : ∀ inner, readOperandWith inner (operandBytes x ++ rest) = .ok (x.unsourced, rest)) :
    readOperand room (operandBytes x ++ rest) = answer room x.nesting x.unsourced rest := by
  rw [flat, answerFlat]
  cases room with
  | zero => exact found none
  | succ room => exact found (some (readOperand room))

theorem readNothing (read : Reader α) (room : Nat) (rest : Bytes) :
    readMany read 0 rest = answer room 0 [] rest := (answerFlat room [] rest).symm

theorem readBoth {one : Reader α} {other : Reader β} (make : α → β → γ) {room first second : Nat}
    {x : α} {y : β} {bytes after rest : Bytes} (head : one bytes = answer room first x after)
    (tail : other after = answer room second y rest) :
    (do return make (← one) (← other)) bytes =
      answer room (max first second) (make x y) rest := by
  -- Of two things read one behind the other the first that nests too deep is refused.
  unfold answer at head
  split at head
  · rename_i fits
    rw [bindRead head, mapRead, tail]
    unfold answer
    by_cases restFits : second ≤ room
    · rw [if_pos restFits, if_pos (by omega)]; rfl
    · rw [if_neg restFits, if_neg (by omega)]; rfl
  · rename_i deep
    rw [bindRefused head]
    exact (if_neg (by omega)).symm

theorem readNext {read : Reader α} {room n first more : Nat} {x : α} {xs : List α}
    {bytes after rest : Bytes} (head : read bytes = answer room first x after)
    (tail : readMany read n after = answer room more xs rest) :
    readMany read (n + 1) bytes = answer room (max first more) (x :: xs) rest :=
  readBoth List.cons head tail

theorem readBlockWritten {read : Reader Operand} {room nesting : Nat} {n : Nat} {code : Code}
    {bytes rest : Bytes} (bound : n < 2 ^ 32)
    (found : readMany (readInstr read) n (bytes ++ rest) = answer room nesting code rest) :
    readBlock read (count n ++ bytes ++ rest) = answer room nesting code rest := by
  unfold readBlock
  rw [List.append_assoc, bindRead (readCountWritten bound _)]
  exact found

theorem readInstrWritten {read : Reader Operand} {room nesting : Nat} {opcode : Opcode}
    {x : Operand} {bytes rest : Bytes} (found : read bytes = answer room nesting x rest) :
    readInstr read (opcode.toByte :: bytes) = answer room nesting (.mk opcode x none) rest := by
  unfold readInstr
  rw [bindRead (readByteWritten _ _), Opcode.ofByte?_toByte]
  change (do return Instr.mk opcode (← read) none) bytes = _
  rw [mapRead, found]
  exact answerMap room nesting x (Instr.mk opcode · none) rest

-- The room goes down with the nesting of what was written, whether or not there is enough of it, so
-- that one induction covers what is read back and what is refused.
mutual

theorem readOperandWritten : (x : Operand) → x.Counted → (room : Nat) → (rest : Bytes) →
    readOperand room (operandBytes x ++ rest) = answer room x.nesting x.unsourced rest
  | .null, _, _, _ => readFlat rfl fun _ => rfl
  | .bool b, _, _, rest => readFlat rfl fun inner => readBoolWritten inner b rest
  | .int n, _, _, rest => readFlat rfl fun inner => readIntWritten inner n rest
  | .long n, _, _, rest => readFlat rfl fun inner => readLongWritten inner n rest
  | .double bits, _, _, rest => readFlat rfl fun inner => readDoubleWritten inner bits rest
  | .str _, counted, _, rest => readFlat rfl fun inner => readStrWritten inner counted rest
  | .char c, _, _, rest => readFlat rfl fun inner => readCharOperandWritten inner c rest
  | .code body, counted, room, rest => by
    cases room with
    | zero => rfl
    | succ room =>
      have found := readBlockWritten counted.1 (readInstrsWritten body counted.2 room rest)
      change (do return Operand.code (← readBlock (readOperand room)))
        (count body.length ++ instrsBytes body ++ rest) = _
      rw [mapRead, found, answerMap]
      exact (answerInner room _ _ rest).symm
  | .list items, counted, room, rest => by
    cases room with
    | zero => rfl
    | succ room =>
      change (do return Operand.list (← readMany (readOperand room) (← readCount)))
        (count items.length ++ operandsBytes items ++ rest) = _
      rw [List.append_assoc, bindRead (readCountWritten counted.1 _), mapRead,
        readOperandsWritten items counted.2 room rest, answerMap]
      exact (answerInner room _ _ rest).symm
  | .tuple a b, counted, room, rest => by
    cases room with
    | zero => rfl
    | succ room =>
      change (do return Operand.tuple (← readOperand room) (← readOperand room))
        (operandBytes a ++ operandBytes b ++ rest) = _
      rw [List.append_assoc, readBoth Operand.tuple (readOperandWritten a counted.1 room _)
        (readOperandWritten b counted.2 room rest)]
      exact (answerInner room _ _ rest).symm

theorem readOperandsWritten : (xs : List Operand) → OperandsCounted xs → (room : Nat) →
    (rest : Bytes) → readMany (readOperand room) xs.length (operandsBytes xs ++ rest) =
      answer room (operandsNesting xs) (operandsUnsourced xs) rest
  | [], _, room, rest => readNothing _ room rest
  | x :: xs, counted, room, rest => by
    rw [operandsBytes, List.append_assoc]
    exact readNext (readOperandWritten x counted.1 room _) (readOperandsWritten xs counted.2 room rest)

theorem readInstrsWritten : (code : List Instr) → InstrsCounted code → (room : Nat) →
    (rest : Bytes) → readMany (readInstr (readOperand room)) code.length (instrsBytes code ++ rest) =
      answer room (instrsNesting code) (instrsUnsourced code) rest
  | [], _, room, rest => readNothing _ room rest
  | .mk opcode operand _ :: code, counted, room, rest => by
    rw [instrsBytes, List.append_assoc]
    exact readNext (readInstrWritten (readOperandWritten operand counted.1 room _))
      (readInstrsWritten code counted.2 room rest)

end

theorem readCodeWritten {code : Code} (bound : code.length < 2 ^ 32) (counted : InstrsCounted code)
    (rest : Bytes) : readCode (encode code ++ rest) =
      answer maxNesting (instrsNesting code) (instrsUnsourced code) rest := by
  change (readByte >>= _) (version :: (blockBytes code ++ rest)) = _
  rw [bindRead (readByteWritten _ _), if_pos rfl]
  exact readBlockWritten bound (readInstrsWritten code counted maxNesting rest)

end Codec

open Codec in
/-- Code is read back without its sources, whatever follows it, if its operands nest at most 256
levels deep, and is refused if they nest deeper. -/
theorem decodeEncoded (code : Code) (bound : code.length < 2 ^ 32) (counted : InstrsCounted code) :
    (instrsNesting code ≤ 256 → ∀ rest, decode (encode code ++ rest) = .ok (instrsUnsourced code)) ∧
    (256 < instrsNesting code → ∀ rest, decode (encode code ++ rest) = .error .tooDeep) ∧
    DecodeError.tooDeep.message = "operands nested deeper than 256 levels" := by
  have read (rest : Bytes) : decode (encode code ++ rest) =
      (answer 256 (instrsNesting code) (instrsUnsourced code) rest).map Prod.fst :=
    congrArg (Except.map Prod.fst) (readCodeWritten bound counted rest)
  refine ⟨fun fits rest => ?_, fun deep rest => ?_, by decide⟩
  · rw [read, answer, if_pos fits]; rfl
  · rw [read, answer, if_neg (by omega)]; rfl

theorem nestedCallRead :
    decode (encode [.mk .call (.list [.tuple (.str "x")
      (.code [.mk .push (.double 0x7ff8000000000001) none])]) (some 1)] ++ [7]) =
    .ok [.mk .call (.list [.tuple (.str "x")
      (.code [.mk .push (.double 0x7ff8000000000001) none])]) none] :=
  (decodeEncoded _ (by decide)
    (by simp [InstrsCounted, Instr.Counted, Operand.Counted, OperandsCounted]; decide)).1
    (by decide) [7]

end Quill
