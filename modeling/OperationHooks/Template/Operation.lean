import OperationHooks.Template.Value

set_option autoImplicit false

namespace OperationHooks.Template.Value

def operandMismatch (op : String) (a b : Value) : Fault :=
  .typeMismatch s!"unsupported operand type(s) for {op}: '{a.typeName}' and '{b.typeName}'"

def symbol : Arithmetic → String
  | .add => "+" | .sub => "-" | .mul => "*" | .divide => "/" | .floorDivide => "//"
  | .modulo => "%" | .power => "** or pow()"

def ofQuotient (n : Int) (d : Nat) : Value := .real (.ofRatio (n < 0) n.natAbs d)

/-- The quotient of two integers as the nearest number. A zero takes the sign of the divisor. -/
def quotientOf (a b : Int) : Except Fault Value :=
  match Binary64.ofRatio (decide (a < 0) != decide (b < 0)) a.natAbs b.natAbs with
  | .infinite _ => .error (.tooLarge "integer division result too large for a float")
  | x => .ok (.real x)

def integerArithmetic (op : Arithmetic) (a b : Int) : Except Fault Value :=
  match op with
  | .add => .ok (.integer (a + b))
  | .sub => .ok (.integer (a - b))
  | .mul => .ok (.integer (a * b))
  | .divide => if b = 0 then .error (.divisionByZero .divide false) else quotientOf a b
  | .floorDivide =>
    if b = 0 then .error (.divisionByZero .floorDivide false) else .ok (.integer (Int.fdiv a b))
  | .modulo => if b = 0 then .error (.divisionByZero .modulo false) else
    .ok (.integer (Int.fmod a b))
  | .power =>
    if 0 ≤ b then .ok (.integer (a.pow b.toNat))
    else if a = 0 then .error (.divisionByZero .power false)
    else quotientOf (if b % 2 = 0 then 1 else a.sign) (a.natAbs.pow b.natAbs)

def toReal (v : Value) : Except Fault Binary64 :=
  match v, v.integer? with
  | .real x, _ => .ok x
  | _, some n =>
    match Binary64.ofRatio (n < 0) n.natAbs 1 with
    | .infinite _ => .error (.tooLarge "int too large to convert to float")
    | x => .ok x
  | v, none => .error (.typeMismatch s!"must be real number, not {v.typeName}")

def floored (op : Arithmetic) (a b : Value) : Except Fault Value :=
  match a.quotient?, b.quotient? with
  | some x, some y =>
    match op with
    | .floorDivide => .ok (ofQuotient (Int.fdiv (x.1 * y.2) (x.2 * y.1)) 1)
    | _ => .ok (ofQuotient (Int.fmod (x.1 * y.2) (y.1 * x.2)) (x.2 * y.2))
  | _, _ => .ok (.real .nan)

def realArithmetic (op : Arithmetic) (a b : Binary64) : Except Fault Value :=
  match op with
  | .add => .ok (.real (a.add b))
  | .sub => .ok (.real (a.add b.neg))
  | .mul => .ok (.real (a.mul b))
  | .divide => if b.isZero then .error (.divisionByZero .divide true) else .ok (.real (a.div b))
  | .power => .error (.typeMismatch "power of real numbers")
  | op => if b.isZero then .error (.divisionByZero op true) else floored op (.real a) (.real b)

def repeated? (v : Value) (n : Int) : Option Value :=
  match v with
  | .text s => some (.text (List.replicate n.toNat s).flatten)
  | .list xs => some (.list (List.replicate n.toNat xs).flatten)
  | .tuple xs => some (.tuple (List.replicate n.toNat xs).flatten)
  | _ => none

def isSequence : Value → Bool
  | .text _ | .list _ | .tuple _ => true
  | _ => false

def repeatedBy (v n : Value) : Except Fault Value :=
  match n.integer?.bind (repeated? v) with
  | some result => .ok result
  | none => .error (.typeMismatch s!"can't multiply sequence by non-int of type '{n.typeName}'")

def joined (a b : Value) : Except Fault Value :=
  match a, b with
  | .text s, .text t => .ok (.text (s ++ t))
  | .list xs, .list ys => .ok (.list (xs ++ ys))
  | .tuple xs, .tuple ys => .ok (.tuple (xs ++ ys))
  | a, b => .error (.typeMismatch
      s!"can only concatenate {a.typeName} (not \"{b.typeName}\") to {a.typeName}")

/-- What an operator makes of two values that are neither both numbers nor sequences it joins. -/
def mismatch (op : Arithmetic) (a b : Value) : Fault :=
  match op, a with
  | .modulo, .text _ => .typeMismatch "not all arguments converted during string formatting"
  | op, a => operandMismatch (symbol op) a b

def arithmetic (op : Arithmetic) (a b : Value) : Except Fault Value :=
  match a, b with
  | .undefined what, _ => failing what
  | _, .undefined what => failing what
  | _, _ =>
    if a.isSequence && op == .add then joined a b
    else if a.isSequence && op == .mul then repeatedBy a b
    else if b.isSequence && op == .mul then repeatedBy b a
    else
      match a.integer?, b.integer? with
      | some x, some y => integerArithmetic op x y
      | _, _ =>
        if a.isNumber && b.isNumber then do realArithmetic op (← a.toReal) (← b.toReal)
        else .error (mismatch op a b)

def signed (negative : Bool) (v : Value) : Except Fault Value :=
  match v, v.integer? with
  | .undefined what, _ => failing what
  | .real x, _ => .ok (.real (if negative then x.neg else x))
  | _, some n => .ok (.integer (if negative then -n else n))
  | v, none =>
    let sign := if negative then "-" else "+"
    .error (.typeMismatch s!"bad operand type for unary {sign}: '{v.typeName}'")

def isInfix (s t : Text.Wide) : Bool :=
  s.isPrefixOf t || match t with
    | [] => false
    | _ :: rest => isInfix s rest

def isAmong (v : Value) : List Value → Except Fault Bool
  | [] => .ok false
  | item :: rest => do if ← equal item v then return true else isAmong v rest

def contains (v container : Value) : Except Fault Bool :=
  match v, container with
  | _, .undefined what => if what.isLenient then .ok false else failing what
  | .text s, .text t => .ok (isInfix s t)
  | v, .text _ => .error (.typeMismatch
      s!"'in <string>' requires string as left operand, not {v.typeName}")
  | v, .list items | v, .tuple items => isAmong v items
  | _, w => .error (.typeMismatch s!"argument of type '{w.typeName}' is not iterable")

def orderSymbol : Comparison → String
  | .less => "<" | .lessOrEqual => "<=" | .greater => ">" | _ => ">="

/-- What an order says, from whether the first is less than the second and whether they are equal.
-/
def decided (op : Comparison) (less equal : Bool) : Bool :=
  match op with
  | .less => less
  | .lessOrEqual => less || equal
  | .greater => !(less || equal)
  | _ => !less

def ordered (op : Comparison) (a b : Value) : Except Fault Bool :=
  match a, b with
  | .undefined what, _ => failing what
  | _, .undefined what => failing what
  | .text s, .text t =>
    .ok (decided op (decide (s.map Text.Point.code < t.map Text.Point.code)) (s == t))
  | _, _ =>
    match a.quotient?, b.quotient? with
    | some (n, d), some (m, e) => .ok (decided op (decide (n * e < m * d)) (n * e == m * d))
    | _, _ => .error (.typeMismatch
        s!"'{orderSymbol op}' not supported between instances of '{a.typeName}' and '{b.typeName}'")

def compare (op : Comparison) (a b : Value) : Except Fault Bool :=
  match op with
  | .isIn => contains a b
  | .notIn => (contains a b).map (!·)
  | .equal => equal a b
  | .notEqual => (equal a b).map (!·)
  | op => ordered op a b

def methodNames : List String :=
  ["upper", "lower", "capitalize", "strip", "lstrip", "rstrip", "replace", "startswith", "endswith",
   "title"]

def loopPart? (index : Nat) (length : Except Fault Nat) (last : Except Fault Bool) (name : String) :
    Option (Except Fault Value) :=
  match name with
  | "index" => some (.ok (.integer (index + 1)))
  | "index0" => some (.ok (.integer index))
  | "revindex" => some (length.map fun n => .integer (n - index : Nat))
  | "revindex0" => some (length.map fun n => .integer (n - index - 1 : Nat))
  | "first" => some (.ok (.boolean (index == 0)))
  | "last" => some (last.map .boolean)
  | "length" => some (length.map fun n => .integer n)
  | "depth" => some (.ok (.integer 1))
  | "depth0" => some (.ok (.integer 0))
  | _ => none

def member (v : Value) (name : Text.Wide) : Except Fault Value :=
  let absent := Value.undefined (.attribute v.kind name)
  match v, name.toText? with
  | .undefined what, _ => failing what
  | .text s, some name => .ok (if methodNames.contains name then .method s name else absent)
  | .loopState index length last, some name => (loopPart? index length last name).getD (.ok absent)
  | _, _ => .ok absent

/-- An index from either end, if it is one of `length` places. -/
def position? (index : Int) (length : Nat) : Option Nat :=
  let n := if index < 0 then index + length else index
  if 0 ≤ n && n < length then some n.toNat else none

def element? (v : Value) (index : Int) : Option Value :=
  match v with
  | .text s =>
    (position? index s.length).bind fun k => s[k]?.map fun p => .text [p]
  | .list items | .tuple items => (position? index items.length).bind fun k => items[k]?
  | _ => none

def item (v index : Value) : Except Fault Value :=
  match v, index with
  | .undefined what, _ => failing what
  | v, .text name => v.member name
  | v, index =>
    match index.integer?.bind v.element? with
    | some found => .ok found
    | none => do return .undefined (.element v.kind (← index.shown))

def clamp (low high n : Int) : Int := max low (min high n)

/-- Every `step`-th element between two places that may count from the end. -/
def sliced {α : Type} (xs : List α) (start stop step : Option Int) : List α :=
  let n : Int := xs.length
  let step := step.getD 1
  let fromEnd (k : Int) := if k < 0 then k + n else k
  if step > 0 then
    let first := clamp 0 n (fromEnd (start.getD 0))
    let last := clamp 0 n (fromEnd (stop.getD n))
    let count := ((last - first + step - 1) / step).toNat
    (List.range count).filterMap fun (k : Nat) => xs[(first + k * step).toNat]?
  else
    let first := clamp (-1) (n - 1) ((start.map fromEnd).getD (n - 1))
    let last := clamp (-1) (n - 1) ((stop.map fromEnd).getD (-1))
    let count := ((first - last - step - 1) / (-step)).toNat
    (List.range count).filterMap fun (k : Nat) => xs[(first + k * step).toNat]?

def sliceBound : Option Value → Except Fault (Option Int)
  | none | some .nothing => .ok none
  | some v =>
    match v.integer? with
    | some n => .ok (some n)
    | none => .error (.typeMismatch
        "slice indices must be integers or None or have an __index__ method")

def slicedBy {α : Type} (xs : List α) (start stop step : Option Value) : Except Fault (List α) := do
  let step ← sliceBound step
  if step == some 0 then throw (.badValue "slice step cannot be zero")
  return sliced xs (← sliceBound start) (← sliceBound stop) step

def slice (v : Value) (start stop step : Option Value) : Except Fault Value :=
  match v with
  | .undefined what => failing what
  | .text s => do return .text (← slicedBy s start stop step)
  | .list items => do return .list (← slicedBy items start stop step)
  | .tuple items => do return .tuple (← slicedBy items start stop step)
  | v => .error (.typeMismatch s!"'{v.typeName}' object is not subscriptable")

def unpacked (v : Value) (count : Nat) : Except Fault (List Value) := do
  let parts ← match v with
    | .undefined _ | .text _ | .list _ | .tuple _ => v.items
    | v => throw (.typeMismatch s!"cannot unpack non-iterable {v.typeName} object")
  if parts.length < count then
    throw (.badValue s!"not enough values to unpack (expected {count}, got {parts.length})")
  else if count < parts.length then
    throw (.badValue s!"too many values to unpack (expected {count})")
  else return parts

end OperationHooks.Template.Value
