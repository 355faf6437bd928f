import Quill.Proofs.Codec.Accepted

/-! Code that is cut short. What a reader gives for some bytes, or refuses them for, stands whatever
follows them; only when the bytes run out would more of them have mattered. So a cut in written code,
wherever it falls, is noticed as the end of the input. -/
namespace Quill

def DecodeError.isIo : DecodeError → Bool
  | .endOfInput | .endInString => true
  | _ => false

namespace Codec

/-- Further bytes change nothing about what the reader has made of those before them, unless it ran
out of them. -/
structure Steady {α : Type} (read : Reader α) : Prop where
  gives : ∀ {bytes x rest}, read bytes = .ok (x, rest) →
    ∀ more, read (bytes ++ more) = .ok (x, rest ++ more)
  refuses : ∀ {bytes e}, read bytes = .error e → e.isIo = false →
    ∀ more, read (bytes ++ more) = .error e

namespace Steady

variable {α β : Type} {read : Reader α} {next : α → Reader β}

theorem pure (x : α) : Steady (Pure.pure x) where
  gives := by
    rintro bytes _ _ ⟨⟩ more
    rfl
  refuses := by
    rintro bytes e ⟨⟩

theorem throw (e : DecodeError) : Steady (MonadExcept.throw e : Reader α) where
  gives := by
    rintro bytes x rest ⟨⟩
  refuses := by
    rintro bytes _ ⟨⟩ _ more
    rfl

theorem bind (first : Steady read) (second : ∀ x, Steady (next x)) : Steady (read >>= next) where
  gives := by
    intro bytes y rest found more
    cases here : read bytes with
    | error e =>
      rw [bindRefused here] at found
      cases found
    | ok pair =>
      rw [bindRead here] at found
      rw [bindRead (first.gives here more)]
      exact (second pair.1).gives found more
  refuses := by
    intro bytes e refused other more
    cases here : read bytes with
    | error e' =>
      rw [bindRefused here] at refused
      cases refused
      exact bindRefused (first.refuses here other more)
    | ok pair =>
      rw [bindRead here] at refused
      rw [bindRead (first.gives here more)]
      exact (second pair.1).refuses refused other more

theorem map {make : α → β} (first : Steady read) : Steady (do return make (← read)) :=
  first.bind fun x => .pure (make x)

end Steady

theorem byteSteady : Steady readByte where
  gives := by
    intro bytes b rest found more
    cases bytes with
    | nil => cases found
    | cons c bytes =>
      cases found
      rfl
  refuses := by
    intro bytes e refused other more
    cases bytes with
    | nil =>
      cases refused
      cases other
    | cons c bytes => cases refused

theorem bytesSteady {short : DecodeError} (ends : short.isIo) (n : Nat) :
    Steady (readBytes short n) where
  gives := by
    intro bytes bs rest found more
    obtain ⟨front, rfl, rfl, length⟩ := bytesAccepted short n bytes bs rest found
    rw [List.append_assoc]
    exact readBytesWritten short length (rest ++ more)
  refuses := by
    intro bytes e refused other more
    unfold readBytes at refused
    split at refused
    · cases refused
    · cases refused
      rw [ends] at other
      cases other

theorem numberSteady (width : Nat) : Steady (readNumber width) := (bytesSteady rfl width).map

theorem manySteady {α : Type} {one : Reader α} (each : Steady one) (n : Nat) :
    Steady (readMany one n) := by
  induction n with
  | zero => exact .pure []
  | succ n ih => exact each.bind fun x => ih.map

theorem stringSteady : Steady readString := by
  refine (numberSteady 4).bind fun n => (bytesSteady rfl n).bind fun bs => ?_
  split
  · exact .pure _
  · exact .throw _

theorem charSteady : Steady readChar := by
  refine byteSteady.bind fun lead => ?_
  split
  · exact .throw _
  · refine (bytesSteady rfl _).bind fun bs => ?_
    split
    · exact .pure _
    · exact .throw _

variable {operand : Reader Operand}

theorem instrSteady (inner : Steady operand) : Steady (readInstr operand) := by
  refine byteSteady.bind fun byte => ?_
  split
  · exact inner.map
  · exact .throw _

theorem blockSteady (inner : Steady operand) : Steady (readBlock operand) :=
  (numberSteady 4).bind fun n => manySteady (instrSteady inner) n

theorem operandWithSteady {inner : Option (Reader Operand)}
    (nested : ∀ operand, inner = some operand → Steady operand) :
    Steady (readOperandWith inner) := by
  refine byteSteady.bind fun tag => ?_
  split
  · exact .pure _
  · exact byteSteady.map
  · exact (numberSteady 4).map
  · exact (numberSteady 8).map
  · exact (numberSteady 8).map
  · exact stringSteady.map
  · exact charSteady.map
  · cases inner with
    | none => exact .throw _
    | some operand => exact (blockSteady (nested operand rfl)).map
  · cases inner with
    | none => exact .throw _
    | some operand =>
      exact (numberSteady 4).bind fun n => (manySteady (nested operand rfl) n).map
  · cases inner with
    | none => exact .throw _
    | some operand => exact (nested operand rfl).bind fun _ => (nested operand rfl).map
  · exact .throw _

theorem operandSteady (room : Nat) : Steady (readOperand room) := by
  induction room with
  | zero => exact operandWithSteady fun _ never => nomatch never
  | succ room ih =>
    refine operandWithSteady fun operand given => ?_
    cases given
    exact ih

theorem codeSteady : Steady readCode := by
  refine byteSteady.bind fun found => ?_
  split
  · exact blockSteady (operandSteady maxNesting)
  · exact .throw _

end Codec

open Codec in
/-- Written code that is cut anywhere before its end is refused for the end of the input. -/
theorem truncatedRefused (code : Code) (bound : code.length < 2 ^ 32) (counted : InstrsCounted code)
    (fits : instrsNesting code ≤ 256) (front : Bytes) (written : front <+: encode code)
    (proper : front ≠ encode code) : ∃ e, decode front = .error e ∧ e.isIo := by
  obtain ⟨more, whole⟩ := written
  have read : readCode (front ++ more) = .ok (instrsUnsourced code, []) := by
    have nests : instrsNesting code ≤ maxNesting := fits
    rw [whole, ← List.append_nil (encode code), readCodeWritten bound counted, answer, if_pos nests]
  cases found : readCode front with
  | ok pair =>
    obtain ⟨code', rest⟩ := pair
    -- Then the bytes behind the cut would be left over from the whole.
    have left := (codeSteady.gives found more).symm.trans read
    rw [Except.ok.injEq, Prod.mk.injEq, List.append_eq_nil_iff] at left
    rw [left.2.2, List.append_nil] at whole
    exact (proper whole).elim
  | error e =>
    refine ⟨e, congrArg (Except.map Prod.fst) found, ?_⟩
    cases ends : e.isIo with
    | true => rfl
    | false => cases (codeSteady.refuses found ends more).symm.trans read

theorem cutCharRefused :
    [1, 1, 0, 0, 0, 1, 9, 0, 6, 0xc3] <+:
      encode [.mk .push (.tuple .null (.char 'é')) (some 3)] ∧
    ∃ e, decode [1, 1, 0, 0, 0, 1, 9, 0, 6, 0xc3] = .error e ∧ e.isIo :=
  ⟨by decide, truncatedRefused [.mk .push (.tuple .null (.char 'é')) (some 3)] (by decide)
    (by simp [InstrsCounted, Instr.Counted, Operand.Counted]) (by decide) _ (by decide)
    (by decide)⟩

end Quill
