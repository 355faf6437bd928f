import Quill.Proofs.Codec.RoundTrip

/-! What the readers of the binary form accept. A reader uses up the bytes that are written for what
it gives, and no others but one: any nonzero byte stands for true. -/
namespace Quill

mutual

def Operand.flags : Operand → List Bool
  | .bool _ => [false, true]
  | .null => [false]
  | .int n => List.replicate (Codec.operandBytes (.int n)).length false
  | .long n => List.replicate (Codec.operandBytes (.long n)).length false
  | .double bits => List.replicate (Codec.operandBytes (.double bits)).length false
  | .str s => List.replicate (Codec.operandBytes (.str s)).length false
  | .char c => List.replicate (Codec.operandBytes (.char c)).length false
  | .code body => List.replicate 5 false ++ instrsFlags body
  | .list items => List.replicate 5 false ++ operandsFlags items
  | .tuple a b => false :: (a.flags ++ b.flags)

def operandsFlags : List Operand → List Bool
  | [] => []
  | x :: rest => x.flags ++ operandsFlags rest

def Instr.flags : Instr → List Bool
  | .mk _ operand _ => false :: operand.flags

def instrsFlags : List Instr → List Bool
  | [] => []
  | i :: rest => i.flags ++ instrsFlags rest

end

namespace Codec

/-- The second bytes are the first, but for nonzero truth values, which are written as 1. -/
inductive Settles : List Bool → Bytes → Bytes → Prop where
  | nil : Settles [] [] []
  | keep {flags : List Bool} {xs ys : Bytes} (flag : Bool) (b : UInt8) (rest : Settles flags xs ys) :
      Settles (flag :: flags) (b :: xs) (b :: ys)
  | settle {flags : List Bool} {xs ys : Bytes} {b : UInt8} (nonzero : b ≠ 0)
      (rest : Settles flags xs ys) : Settles (true :: flags) (b :: xs) (1 :: ys)

namespace Settles

variable {flags flags' : List Bool} {xs xs' ys ys' : Bytes}

theorem length (settles : Settles flags xs ys) : xs.length = ys.length := by
  induction settles with
  | nil => rfl
  | keep _ _ _ ih | settle _ _ ih => rw [List.length_cons, List.length_cons, ih]

theorem append (first : Settles flags xs ys) (second : Settles flags' xs' ys') :
    Settles (flags ++ flags') (xs ++ xs') (ys ++ ys') := by
  induction first with
  | nil => exact second
  | keep flag b _ ih => exact .keep flag b ih
  | settle nonzero _ ih => exact .settle nonzero ih

theorem same (bs : Bytes) : Settles (List.replicate bs.length false) bs bs := by
  induction bs with
  | nil => exact .nil
  | cons b bs ih => exact .keep false b ih

end Settles

def Accepts {α : Type} (read : Reader α) (P : α → Bytes → Prop) : Prop :=
  ∀ bytes x rest, read bytes = .ok (x, rest) → ∃ front, bytes = front ++ rest ∧ P x front

section
variable {α β : Type} {read : Reader α} {next : α → Reader β}
variable {P P' : α → Bytes → Prop} {Q : β → Bytes → Prop}

theorem Accepts.pure {x : α} (holds : P x []) : Accepts (Pure.pure x) P := by
  rintro bytes _ _ ⟨⟩
  exact ⟨[], rfl, holds⟩

theorem Accepts.throw {e : DecodeError} : Accepts (MonadExcept.throw e : Reader α) P := by
  rintro bytes x rest ⟨⟩

theorem Accepts.bind (first : Accepts read P)
    (second : ∀ x front, P x front → Accepts (next x) fun y more => Q y (front ++ more)) :
    Accepts (read >>= next) Q := by
  intro bytes y rest found
  cases here : read bytes with
  | error e =>
    rw [bindRefused here] at found
    cases found
  | ok pair =>
    obtain ⟨x, between⟩ := pair
    rw [bindRead here] at found
    obtain ⟨front, rfl, holds⟩ := first bytes x between here
    obtain ⟨more, rfl, done⟩ := second x front holds between y rest found
    exact ⟨front ++ more, (List.append_assoc front more rest).symm, done⟩

theorem Accepts.imp (accepts : Accepts read P) (weaker : ∀ x front, P x front → P' x front) :
    Accepts read P' := by
  intro bytes x rest found
  obtain ⟨front, cut, holds⟩ := accepts bytes x rest found
  exact ⟨front, cut, weaker x front holds⟩

end

theorem byteAccepted : Accepts readByte fun b front => front = [b] := by
  intro bytes b rest found
  cases bytes with
  | nil => cases found
  | cons c bytes =>
    cases found
    exact ⟨[b], rfl, rfl⟩

theorem cutFound {n : Nat} {bytes front back : Bytes} (found : cut? n bytes = some (front, back)) :
    bytes = front ++ back ∧ front.length = n := by
  induction n generalizing bytes front with
  | zero =>
    cases found
    exact ⟨rfl, rfl⟩
  | succ n ih =>
    cases bytes with
    | nil => cases found
    | cons b bytes =>
      obtain ⟨⟨front', back'⟩, found', same⟩ := Option.map_eq_some_iff.mp found
      cases same
      obtain ⟨rfl, rfl⟩ := ih found'
      exact ⟨rfl, rfl⟩

theorem bytesAccepted (short : DecodeError) (n : Nat) :
    Accepts (readBytes short n) fun bs front => front = bs ∧ bs.length = n := by
  intro bytes bs rest found
  unfold readBytes at found
  split at found
  · rename_i pair cut
    cases found
    obtain ⟨rfl, length⟩ := cutFound cut
    exact ⟨bs, rfl, rfl, length⟩
  · cases found

theorem littleEndianRead (bs : Bytes) : littleEndian bs.length (ofLittleEndian bs) = bs ∧
    ofLittleEndian bs < 256 ^ bs.length := by
  induction bs with
  | nil => exact ⟨rfl, by decide⟩
  | cons b bs ih =>
    have small := b.toNat_lt
    have low : UInt8.ofNat (b.toNat + 256 * ofLittleEndian bs) = b := by
      apply UInt8.toNat_inj.mp
      simp
    have high : (b.toNat + 256 * ofLittleEndian bs) / 256 = ofLittleEndian bs := by omega
    refine ⟨?_, ?_⟩
    · rw [List.length_cons, littleEndian, ofLittleEndian, low, high, ih.1]
    · rw [List.length_cons, ofLittleEndian, Nat.pow_succ]
      omega

theorem numberAccepted (width : Nat) :
    Accepts (readNumber width) fun n front => front = littleEndian width n ∧ n < 256 ^ width := by
  refine (bytesAccepted _ width).bind fun bs front ⟨same, length⟩ => .pure ?_
  subst same length
  obtain ⟨read, bound⟩ := littleEndianRead front
  exact ⟨by rw [List.append_nil, read], bound⟩

theorem countAccepted : Accepts readCount fun n front => front = count n ∧ n < 2 ^ 32 :=
  (numberAccepted 4).imp fun _ _ ⟨same, bound⟩ => ⟨same, by omega⟩

theorem stringFound {bs : Bytes} {s : String} (found : stringOf? bs = some s) :
    s.toUTF8.data.toList = bs := by
  unfold stringOf? String.fromUTF8? at found
  split at found
  · cases found
    rfl
  · cases found

theorem stringAccepted : Accepts readString fun s front =>
    front = count s.utf8ByteSize ++ s.toUTF8.data.toList ∧ s.utf8ByteSize < 2 ^ 32 := by
  refine countAccepted.bind fun n counted ⟨written, bound⟩ => ?_
  refine (bytesAccepted _ n).bind fun bs front ⟨same, length⟩ => ?_
  split
  · rename_i s found
    have bytes := stringFound found
    have size : s.utf8ByteSize = n := by
      rw [← length, ← bytes]
      rfl
    refine .pure ⟨?_, size ▸ bound⟩
    rw [written, same, size, bytes, List.append_nil]
  · exact .throw

theorem charFound {bs : Bytes} {c : Char} (found : charOf? bs = some c) :
    ∃ more, bs = String.utf8EncodeChar c ++ more := by
  obtain ⟨s, whole, first⟩ := Option.bind_eq_some_iff.mp found
  obtain ⟨more, split⟩ := List.head?_eq_some_iff.mp first
  refine ⟨more.utf8Encode.data.toList, ?_⟩
  have bytes := stringFound whole
  have encoded : s.toUTF8 = s.toList.utf8Encode := String.utf8Encode_toList.symm
  rw [encoded, split] at bytes
  rw [← bytes]
  simp [List.utf8Encode]

theorem charAccepted : Accepts readChar fun c front => front = String.utf8EncodeChar c := by
  -- The first byte leaves no room for more than one character.
  refine byteAccepted.bind fun lead front one => ?_
  split
  · exact .throw
  rename_i width wide
  refine (bytesAccepted _ _).bind fun bs front' ⟨same, length⟩ => ?_
  split
  · rename_i c found
    refine .pure ?_
    obtain ⟨more, split⟩ := charFound found
    obtain ⟨lead', bs', written, wide'⟩ := charWidthOfLead c
    rw [written, List.cons_append, List.cons.injEq] at split
    obtain ⟨rfl, split⟩ := split
    rw [wide, Option.some.injEq] at wide'
    have empty : more = [] := by
      apply List.eq_nil_of_length_eq_zero
      rw [split, List.length_append] at length
      omega
    rw [one, same, written, split, empty, List.append_nil, List.append_nil]
    rfl
  · exact .throw

structure OperandRead (room : Nat) (x : Operand) (front : Bytes) : Prop where
  settles : Settles x.flags front (operandBytes x)
  counted : x.Counted
  nesting : x.nesting ≤ room
  unsourced : x.unsourced = x

structure OperandsRead (room : Nat) (xs : List Operand) (front : Bytes) : Prop where
  settles : Settles (operandsFlags xs) front (operandsBytes xs)
  counted : OperandsCounted xs
  nesting : operandsNesting xs ≤ room
  unsourced : operandsUnsourced xs = xs

structure InstrsRead (room : Nat) (code : Code) (front : Bytes) : Prop where
  settles : Settles (instrsFlags code) front (instrsBytes code)
  counted : InstrsCounted code
  nesting : instrsNesting code ≤ room
  unsourced : instrsUnsourced code = code

theorem manyAccepted {α : Type} {one : Reader α} {P : α → Bytes → Prop}
    {Q : List α → Bytes → Prop} (each : Accepts one P) (nil : Q [] [])
    (cons : ∀ x xs front more, P x front → Q xs more → Q (x :: xs) (front ++ more)) (n : Nat) :
    Accepts (readMany one n) fun xs front => xs.length = n ∧ Q xs front := by
  induction n with
  | zero => exact .pure ⟨rfl, nil⟩
  | succ n ih =>
    refine each.bind fun x front first => ih.bind fun xs more ⟨length, others⟩ => .pure ?_
    rw [List.append_nil]
    exact ⟨congrArg Nat.succ length, cons x xs front more first others⟩

variable {room : Nat} {operand : Reader Operand}

theorem operandsAccepted (each : Accepts operand (OperandRead room)) (n : Nat) :
    Accepts (readMany operand n) fun xs front => xs.length = n ∧ OperandsRead room xs front := by
  refine manyAccepted each ⟨.nil, trivial, Nat.zero_le room, rfl⟩
    (fun x xs front more first others => ?_) n
  refine ⟨first.settles.append others.settles, ⟨first.counted, others.counted⟩,
    Nat.max_le.mpr ⟨first.nesting, others.nesting⟩, ?_⟩
  exact congrArg₂ List.cons first.unsourced others.unsourced

theorem instrAccepted (inner : Accepts operand (OperandRead room)) :
    Accepts (readInstr operand) fun i front => InstrsRead room [i] front := by
  refine byteAccepted.bind fun byte front one => ?_
  split
  · rename_i opcode found
    refine inner.bind fun x more given => .pure ?_
    rw [one, ← Opcode.toByte_of_ofByte? found]
    refine ⟨.keep false _ (given.settles.append .nil), ⟨given.counted, trivial⟩, ?_, ?_⟩
    · exact Nat.max_le.mpr ⟨given.nesting, Nat.zero_le room⟩
    · exact congrArg (fun x => [Instr.mk opcode x none]) given.unsourced
  · exact .throw

theorem blockAccepted (inner : Accepts operand (OperandRead room)) :
    Accepts (readBlock operand) fun code front => ∃ more, front = count code.length ++ more ∧
      code.length < 2 ^ 32 ∧ InstrsRead room code more := by
  refine countAccepted.bind fun n counted ⟨written, bound⟩ => ?_
  refine (manyAccepted (Q := InstrsRead room) (instrAccepted inner)
    ⟨.nil, trivial, Nat.zero_le room, rfl⟩ (fun i code front more first others => ?_) n).imp
    fun code more ⟨length, given⟩ => ?_
  · have settles := first.settles.append others.settles
    rw [instrsFlags, instrsFlags, instrsBytes, instrsBytes, List.append_nil, List.append_nil]
      at settles
    have unsourced : i.unsourced = i := (List.cons.inj first.unsourced).1
    have nesting := first.nesting
    rw [instrsNesting, Nat.max_le] at nesting
    refine ⟨settles, ⟨first.counted.1, others.counted⟩,
      Nat.max_le.mpr ⟨nesting.1, others.nesting⟩, ?_⟩
    exact congrArg₂ List.cons unsourced others.unsourced
  · exact ⟨more, by rw [written, length], length ▸ bound, given⟩

theorem settlesCounted {flags : List Bool} {xs ys : Bytes} (tag : UInt8) (n : Nat)
    (settles : Settles flags xs ys) :
    Settles (List.replicate 5 false ++ flags) (tag :: count n ++ xs) (tag :: count n ++ ys) := by
  have length : (tag :: count n).length = 5 := congrArg Nat.succ (littleEndianLength 4 n)
  exact (length ▸ Settles.same (tag :: count n)).append settles

theorem flatRead {x : Operand} {front : Bytes} (written : front = operandBytes x)
    (flags : x.flags = List.replicate (operandBytes x).length false) (counted : x.Counted)
    (nesting : x.nesting = 0) (unsourced : x.unsourced = x) : OperandRead room x front := by
  subst written
  exact ⟨flags ▸ .same _, counted, nesting ▸ Nat.zero_le room, unsourced⟩

theorem boolRead (payload : UInt8) : OperandRead room (.bool (payload != 0)) [1, payload] := by
  refine ⟨?_, trivial, Nat.zero_le room, rfl⟩
  by_cases zero : payload = 0
  · subst zero
    exact .keep false 1 (.keep true 0 .nil)
  · have nonzero : (payload != 0) = true := bne_iff_ne.mpr zero
    rw [nonzero]
    exact .keep false 1 (.settle zero .nil)

theorem intRead {n : Nat} (bound : n < 256 ^ 4) :
    OperandRead room (.int (UInt32.ofNat n).toInt32) (2 :: littleEndian 4 n) := by
  refine flatRead ?_ rfl trivial rfl rfl
  have value : (UInt32.ofNat n).toInt32.toUInt32.toNat = n := by simp; omega
  rw [operandBytes, value]

theorem longRead {n : Nat} (bound : n < 256 ^ 8) :
    OperandRead room (.long (UInt64.ofNat n).toInt64) (3 :: littleEndian 8 n) := by
  refine flatRead ?_ rfl trivial rfl rfl
  have value : (UInt64.ofNat n).toInt64.toUInt64.toNat = n := by simp; omega
  rw [operandBytes, value]

theorem doubleRead {n : Nat} (bound : n < 256 ^ 8) :
    OperandRead room (.double (UInt64.ofNat n)) (4 :: littleEndian 8 n) := by
  refine flatRead ?_ rfl trivial rfl rfl
  have value : (UInt64.ofNat n).toNat = n := by simp; omega
  rw [operandBytes, value]

theorem codeRead {code : Code} {front : Bytes} (bound : code.length < 2 ^ 32)
    (given : InstrsRead room code front) :
    OperandRead (room + 1) (.code code) (7 :: count code.length ++ front) := by
  refine ⟨settlesCounted 7 _ given.settles, ⟨bound, given.counted⟩,
    Nat.succ_le_succ given.nesting, ?_⟩
  exact congrArg Operand.code given.unsourced

theorem listRead {xs : List Operand} {front : Bytes} (bound : xs.length < 2 ^ 32)
    (given : OperandsRead room xs front) :
    OperandRead (room + 1) (.list xs) (8 :: count xs.length ++ front) := by
  refine ⟨settlesCounted 8 _ given.settles, ⟨bound, given.counted⟩,
    Nat.succ_le_succ given.nesting, ?_⟩
  exact congrArg Operand.list given.unsourced

theorem tupleRead {a b : Operand} {front more : Bytes} (first : OperandRead room a front)
    (second : OperandRead room b more) :
    OperandRead (room + 1) (.tuple a b) (9 :: (front ++ more)) := by
  refine ⟨.keep false 9 (first.settles.append second.settles), ⟨first.counted, second.counted⟩,
    Nat.succ_le_succ (Nat.max_le.mpr ⟨first.nesting, second.nesting⟩), ?_⟩
  exact congrArg₂ Operand.tuple first.unsourced second.unsourced

theorem operandWithAccepted {inner : Option (Reader Operand)}
    (nested : ∀ operand, inner = some operand →
      ∃ levels, room = levels + 1 ∧ Accepts operand (OperandRead levels)) :
    Accepts (readOperandWith inner) (OperandRead room) := by
  refine byteAccepted.bind fun tag front one => ?_
  subst one
  split
  · exact .pure (flatRead rfl rfl trivial rfl rfl)
  · refine byteAccepted.bind fun payload front one => .pure ?_
    subst one
    exact boolRead payload
  · refine (numberAccepted 4).bind fun n front ⟨written, bound⟩ => .pure ?_
    rw [written, List.append_nil]
    exact intRead bound
  · refine (numberAccepted 8).bind fun n front ⟨written, bound⟩ => .pure ?_
    rw [written, List.append_nil]
    exact longRead bound
  · refine (numberAccepted 8).bind fun n front ⟨written, bound⟩ => .pure ?_
    rw [written, List.append_nil]
    exact doubleRead bound
  · refine stringAccepted.bind fun s front ⟨written, bound⟩ => .pure ?_
    rw [written, List.append_nil]
    exact flatRead rfl rfl bound rfl rfl
  · refine charAccepted.bind fun c front written => .pure ?_
    rw [written, List.append_nil]
    exact flatRead rfl rfl trivial rfl rfl
  · cases inner with
    | none => exact .throw
    | some operand =>
      obtain ⟨levels, rfl, accepted⟩ := nested operand rfl
      refine (blockAccepted accepted).bind fun code front ⟨more, written, bound, given⟩ => .pure ?_
      rw [written, List.append_nil]
      exact codeRead bound given
  · cases inner with
    | none => exact .throw
    | some operand =>
      obtain ⟨levels, rfl, accepted⟩ := nested operand rfl
      refine countAccepted.bind fun n counted ⟨written, bound⟩ => ?_
      refine (operandsAccepted accepted n).bind fun xs front ⟨length, given⟩ => .pure ?_
      subst length
      rw [written, List.append_nil]
      exact listRead bound given
  · cases inner with
    | none => exact .throw
    | some operand =>
      obtain ⟨levels, rfl, accepted⟩ := nested operand rfl
      refine accepted.bind fun a front first => accepted.bind fun b more second => .pure ?_
      rw [List.append_nil, List.singleton_append]
      exact tupleRead first second
  · exact .throw

theorem operandAccepted (room : Nat) : Accepts (readOperand room) (OperandRead room) := by
  induction room with
  | zero => exact operandWithAccepted fun _ never => nomatch never
  | succ room ih =>
    refine operandWithAccepted fun operand given => ?_
    cases given
    exact ⟨room, rfl, ih⟩

def codeFlags (code : Code) : List Bool := List.replicate 5 false ++ instrsFlags code

theorem codeAccepted : Accepts readCode fun code front =>
    Settles (codeFlags code) front (encode code) ∧ code.length < 2 ^ 32 ∧ InstrsCounted code ∧
      instrsNesting code ≤ maxNesting ∧ instrsUnsourced code = code := by
  refine byteAccepted.bind fun found front one => ?_
  subst one
  split
  · rename_i known
    subst known
    refine (blockAccepted (operandAccepted maxNesting)).imp ?_
    rintro code front ⟨more, rfl, bound, given⟩
    exact ⟨settlesCounted version _ given.settles, bound, given.counted, given.nesting,
      given.unsourced⟩
  · exact .throw

end Codec

open Codec in
/-- The bytes that a decoder uses up are those written for the code it gives, except that a nonzero
truth value is written as 1; and from what is written it gives the same code again. -/
theorem decodedSettles {bytes : Bytes} {code : Code} (decoded : decode bytes = .ok code) :
    ∃ front rest, readCode bytes = .ok (code, rest) ∧ bytes = front ++ rest ∧
      front.length = (encode code).length ∧ Settles (codeFlags code) front (encode code) ∧
      decode (encode code) = .ok code := by
  have read : (readCode bytes).map Prod.fst = .ok code := decoded
  cases found : readCode bytes with
  | error e =>
    rw [found] at read
    cases read
  | ok pair =>
    obtain ⟨code', rest⟩ := pair
    rw [found] at read
    cases read
    obtain ⟨front, split, settles, bound, counted, nesting, unsourced⟩ :=
      codeAccepted bytes code' rest found
    refine ⟨front, rest, rfl, split, settles.length, settles, ?_⟩
    have again : (readCode (encode code' ++ [])).map Prod.fst = .ok code' := by
      rw [readCodeWritten bound counted [], answer, if_pos nesting, unsourced]
      rfl
    rw [List.append_nil] at again
    exact again

open Codec in
theorem truthDecoded :
    decode [1, 1, 0, 0, 0, 1, 9, 1, 7, 6, 0xc3, 0xa9, 42] =
      .ok [.mk .push (.tuple (.bool true) (.char 'é')) none] ∧
    ∃ front rest, readCode [1, 1, 0, 0, 0, 1, 9, 1, 7, 6, 0xc3, 0xa9, 42] =
        .ok ([.mk .push (.tuple (.bool true) (.char 'é')) none], rest) ∧
      [1, 1, 0, 0, 0, 1, 9, 1, 7, 6, 0xc3, 0xa9, 42] = front ++ rest ∧
      front.length = (encode [.mk .push (.tuple (.bool true) (.char 'é')) none]).length ∧
      Settles (codeFlags [.mk .push (.tuple (.bool true) (.char 'é')) none]) front
        (encode [.mk .push (.tuple (.bool true) (.char 'é')) none]) ∧
      decode (encode [.mk .push (.tuple (.bool true) (.char 'é')) none]) =
        .ok [.mk .push (.tuple (.bool true) (.char 'é')) none] := by
  have decoded : decode [1, 1, 0, 0, 0, 1, 9, 1, 7, 6, 0xc3, 0xa9, 42] =
      .ok [.mk .push (.tuple (.bool true) (.char 'é')) none] := by rfl
  exact ⟨decoded, decodedSettles decoded⟩

end Quill
