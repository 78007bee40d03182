import OperationHooks.Template.Fault
import OperationHooks.Number.Shortest

set_option autoImplicit false

namespace OperationHooks.Template

inductive Value where
  | nothing
  | boolean (b : Bool)
  | integer (n : Int)
  | real (x : Binary64)
  | text (s : Text.Wide)
  | list (items : List Value)
  | tuple (items : List Value)
  | undefined (what : Undefined)
  | method (receiver : Text.Wide) (name : String)
  | loopState (index : Nat) (length : Except Fault Nat) (last : Except Fault Bool)
  | parentBlock (name : String) (bodies : List BlockBody)

namespace Value

def ofLiteral : Literal → Value
  | .nothing => .nothing
  | .boolean b => .boolean b
  | .integer n => .integer n
  | .real x => .real x
  | .text s => .text s

def typeName : Value → String
  | .nothing => "NoneType"
  | .boolean _ => "bool"
  | .integer _ => "int"
  | .real _ => "float"
  | .text _ => "str"
  | .list _ => "list"
  | .tuple _ => "tuple"
  | .undefined what => if what.isLenient then "Undefined" else "StrictUndefined"
  | .method _ _ => "builtin_function_or_method"
  | .loopState _ _ _ => "LoopContext"
  | .parentBlock _ _ => "BlockReference"

def kind (v : Value) : String :=
  match v with
  | .nothing => "None"
  | .loopState _ _ _ | .parentBlock _ _ => s!"jinja2.runtime.{v.typeName} object"
  | _ => s!"{v.typeName} object"

/-- What fails whenever it is used as a value of some kind. -/
def failing {α : Type} (what : Undefined) : Except Fault α := .error (.undefined what)

def bracketed (opening closing : String) (items : List String) : String :=
  opening ++ ", ".intercalate items ++ closing

mutual

/-- A value inside a list as it is printed. -/
def shown : Value → Except Fault String
  | .nothing => .ok "None"
  | .boolean b => .ok (if b then "True" else "False")
  | .integer n => .ok (toString n)
  | .real x => .ok x.text
  | .text s => .ok s.quoted
  | .list items => do return bracketed "[" "]" (← shownAll items)
  | .tuple items => do
    match ← shownAll items with
    | [only] => return s!"({only},)"
    | texts => return bracketed "(" ")" texts
  | .undefined _ => .ok "Undefined"
  | .method _ name => .ok s!"<built-in method {name} of str object>"
  | .loopState index length _ => do return s!"<LoopContext {index + 1}/{← length}>"
  | .parentBlock name _ => .ok s!"<BlockReference {Text.quoted name}>"

def shownAll : List Value → Except Fault (List String)
  | [] => .ok []
  | v :: rest => do return (← v.shown) :: (← shownAll rest)

end

def printed : Value → Except Fault Text.Wide
  | .text s => .ok s
  | .undefined what => if what.isLenient then .ok [] else failing what
  | v => v.shown.map Text.Wide.ofString

def truth : Value → Except Fault Bool
  | .nothing => .ok false
  | .boolean b => .ok b
  | .integer n => .ok (n != 0)
  | .real x => .ok !x.isZero
  | .text s => .ok !s.isEmpty
  | .list items | .tuple items => .ok !items.isEmpty
  | .undefined what => if what.isLenient then .ok false else failing what
  | .loopState _ length _ => do return (← length) != 0
  | .method _ _ | .parentBlock _ _ => .ok true

def quotient? : Value → Option (Int × Nat)
  | .boolean b => some (if b then 1 else 0, 1)
  | .integer n => some (n, 1)
  | .real (.finite negative m e) =>
    let (n, d) := Binary64.ratio m e
    some (Decimal.signed negative n, d)
  | _ => none

def integer? : Value → Option Int
  | .boolean b => some (if b then 1 else 0)
  | .integer n => some n
  | _ => none

def isNumber : Value → Bool
  | .boolean _ | .integer _ | .real _ => true
  | _ => false

def isUndefined : Value → Bool
  | .undefined _ => true
  | _ => false

def sameNumber (a b : Value) : Bool :=
  match a.quotient?, b.quotient? with
  | some (n, d), some (m, e) => n * e == m * d
  | _, _ =>
    match a, b with
    | .real (.infinite s), .real (.infinite t) => s == t
    | _, _ => false

mutual

def equal : Value → Value → Except Fault Bool
  | .undefined what, b =>
    if what.isLenient then
      match b with
      | .undefined other => if other.isLenient then .ok true else failing other
      | _ => .ok false
    else failing what
  | _, .undefined what => if what.isLenient then .ok false else failing what
  | .nothing, .nothing => .ok true
  | .text s, .text t => .ok (s == t)
  | .list xs, .list ys => if xs.length == ys.length then equalAll xs ys else .ok false
  | .tuple xs, .tuple ys => equalAll xs ys
  | a, b => .ok (sameNumber a b)

def equalAll : List Value → List Value → Except Fault Bool
  | [], [] => .ok true
  | x :: xs, y :: ys => do if ← equal x y then equalAll xs ys else return false
  | _, _ => .ok false

end

/-- What a loop runs over. -/
def items : Value → Except Fault (List Value)
  | .undefined what => if what.isLenient then .ok [] else failing what
  | .text s => .ok (s.map fun p => .text [p])
  | .list xs | .tuple xs => .ok xs
  | v => .error (.typeMismatch s!"'{v.typeName}' object is not iterable")

def length : Value → Except Fault Value
  | .undefined what => if what.isLenient then .ok (.integer 0) else failing what
  | .text s => .ok (.integer s.length)
  | .list xs | .tuple xs => .ok (.integer xs.length)
  | .loopState _ length _ => do return .integer (← length)
  | v => .error (.typeMismatch s!"object of type '{v.typeName}' has no len()")

end Value

end OperationHooks.Template
