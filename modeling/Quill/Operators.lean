import Quill.Code.Opcode
import Quill.Syntax
import Quill.Ty.Assignable

/-! Operator tables. A row is an overload; of the rows whose operand types accept the operands the
first wins. -/
namespace Quill

structure BinaryRow where
  op : BinaryOp
  opcode : Opcode
  left : Ty
  right : Ty
  result : Ty

structure UnaryRow where
  op : UnaryOp
  opcode : Opcode
  operand : Ty
  result : Ty

structure StepRow where
  op : StepOp
  opcode : Opcode
  operand : Ty

namespace Operators

def number : Ty := .union [.int, .float]

def text : Ty := .union [.string, .char]

def binaryTable : List BinaryRow := [
  ⟨.add, .add, text, text, .string⟩,
  ⟨.add, .add, number, number, .float⟩,
  ⟨.sub, .sub, number, number, .float⟩,
  ⟨.mul, .mul, number, number, .float⟩,
  ⟨.div, .div, number, number, .float⟩,
  ⟨.mod, .mod, number, number, .float⟩,
  ⟨.pow, .pow, number, number, .float⟩,
  ⟨.intDiv, .idiv, number, number, .int⟩,
  ⟨.bitAnd, .band, .int, .int, .int⟩,
  ⟨.bitOr, .bor, .int, .int, .int⟩,
  ⟨.bitXor, .bxor, .int, .int, .int⟩,
  ⟨.shl, .shl, .int, .int, .int⟩,
  ⟨.shr, .shr, .int, .int, .int⟩,
  ⟨.and, .and, .bool, .bool, .bool⟩,
  ⟨.or, .or, .bool, .bool, .bool⟩,
  ⟨.eq, .eq, .any, .any, .bool⟩,
  ⟨.notEq, .ne, .any, .any, .bool⟩,
  ⟨.lt, .lt, number, number, .bool⟩,
  ⟨.ltEq, .le, number, number, .bool⟩,
  ⟨.gt, .gt, number, number, .bool⟩,
  ⟨.gtEq, .ge, number, number, .bool⟩]

def unaryTable : List UnaryRow := [
  ⟨.negate, .neg, .int, .int⟩,
  ⟨.negate, .neg, .float, .float⟩,
  ⟨.plus, .pos, .int, .int⟩,
  ⟨.plus, .pos, .float, .float⟩,
  ⟨.not, .not, .bool, .bool⟩,
  ⟨.bitNot, .bnot, .int, .int⟩]

def stepTable : List StepRow := [
  ⟨.increment, .inc, .int⟩,
  ⟨.increment, .inc, .float⟩,
  ⟨.decrement, .dec, .int⟩,
  ⟨.decrement, .dec, .float⟩]

def resolveBinary (op : BinaryOp) (left right : Ty) : Option BinaryRow :=
  binaryTable.find? fun row =>
    row.op = op && left.assignableTo row.left && right.assignableTo row.right

def resolveUnary (op : UnaryOp) (operand : Ty) : Option UnaryRow :=
  unaryTable.find? fun row => row.op = op && operand.assignableTo row.operand

def resolveStep (op : StepOp) (operand : Ty) : Option StepRow :=
  stepTable.find? fun row => row.op = op && operand.assignableTo row.operand

end Operators

end Quill
