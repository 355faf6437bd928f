import Quill.Ty

/-! Assignability: whether a value of one type may be used where another is expected. -/
namespace Quill

namespace Ty

mutual

/-- Parentheses do not count. `any` goes both ways. A union on the left fits if some member does,
then one on the right if some member accepts; an intersection on the right needs all members, one
on the left some. Arrays and type arguments are invariant, parameters contravariant. -/
def assignableTo : Ty → Ty → Bool
  | parenthesized a, b => a.assignableTo b
  | a, parenthesized b => a.assignableTo b
  | any, _ | _, any => true
  | union as, b => someAssignableTo as b
  | a, union bs => a.assignableToSome bs
  | a, intersection bs => a.assignableToAll bs
  | intersection as, b => someAssignableTo as b
  | literal v, literal w => v.same w
  | literal v, primitive p => v.kind = p
  | primitive p, primitive q => p = q
  | array a, array b => a.assignableTo b && b.assignableTo a
  | function ps r, function qs s => paramsAssignable qs ps && r.assignableTo s
  | interface _ ms is, interface _ required requiredIndex =>
    membersAssignable ms required && indexAssignable is requiredIndex
  | named n args, named m args' => n = m && argsInvariant args args'
  | _, _ => false
termination_by a b => sizeOf a + sizeOf b

def someAssignableTo (as : List Ty) (b : Ty) : Bool :=
  match as with
  | [] => false
  | a :: rest => a.assignableTo b || someAssignableTo rest b
termination_by sizeOf as + sizeOf b

def assignableToSome (a : Ty) (bs : List Ty) : Bool :=
  match bs with
  | [] => false
  | b :: rest => a.assignableTo b || a.assignableToSome rest
termination_by sizeOf a + sizeOf bs

def assignableToAll (a : Ty) (bs : List Ty) : Bool :=
  match bs with
  | [] => true
  | b :: rest => a.assignableTo b && a.assignableToAll rest
termination_by sizeOf a + sizeOf bs

def paramsAssignable (as bs : List TyParam) : Bool :=
  match as, bs with
  | [], [] => true
  | .mk _ a _ :: as, .mk _ b _ :: bs => a.assignableTo b && paramsAssignable as bs
  | _, _ => false
termination_by sizeOf as + sizeOf bs

def argsInvariant (as bs : List Ty) : Bool :=
  match as, bs with
  | [], [] => true
  | a :: as, b :: bs => a.assignableTo b && b.assignableTo a && argsInvariant as bs
  | _, _ => false
termination_by sizeOf as + sizeOf bs

def membersAssignable (ms required : List TyMember) : Bool :=
  match required with
  | [] => true
  | .mk key b _ :: rest => memberAssignable ms key b && membersAssignable ms rest
termination_by sizeOf ms + sizeOf required

def memberAssignable (ms : List TyMember) (key : PropertyName) (b : Ty) : Bool :=
  match ms with
  | [] => false
  | .mk k a _ :: rest => if k = key then a.assignableTo b else memberAssignable rest key b
termination_by sizeOf ms + sizeOf b

def indexAssignable (is required : List TyIndex) : Bool :=
  match required with
  | [] => true
  | .mk kind b :: rest => kindAssignable is kind b && indexAssignable is rest
termination_by sizeOf is + sizeOf required

def kindAssignable (is : List TyIndex) (kind : Primitive) (b : Ty) : Bool :=
  match is with
  | [] => false
  | .mk k a :: rest => if k = kind then a.assignableTo b else kindAssignable rest kind b
termination_by sizeOf is + sizeOf b

end

end Ty

end Quill
