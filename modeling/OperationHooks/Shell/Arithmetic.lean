import OperationHooks.Shell.Lexer
import OperationHooks.Shell.Printing

set_option autoImplicit false

namespace OperationHooks.Shell

/-- Texts by their names: the values of variables, or the contents of files. -/
abbrev Table := List (Octets × Octets)

def Table.put (t : Table) (name text : Octets) : Table := (name, text) :: t.filter (·.1 != name)

inductive ArithmeticFault where
  | expecting (what : String)
  | divisionByZero
  | illegalNumber (text : Octets)

structure ArithmeticState where
  rest : Octets
  vars : Table

abbrev Computation := StateT ArithmeticState (Except ArithmeticFault)

namespace Arithmetic

def isBlank (c : Char) : Bool := c == ' ' || c == '\t' || c == '\n'

def blanks : Computation Unit := modify fun s => { s with rest := s.rest.dropWhile isBlank }

/-- Signs that are longer than one character; the longest is taken. -/
def signs : List String :=
  ["<<=", ">>=", "<<", ">>", "<=", ">=", "==", "!=", "&&", "||", "+=", "-=", "*=", "/=", "%=", "&=",
   "|=", "^=", "=", "<", ">", "+", "-", "*", "/", "%", "&", "|", "^", "!", "~", "?", ":", "(", ")"]

def sign? : Computation (Option String) := do
  blanks
  let rest := (← get).rest
  return signs.find? fun s => s.toList.isPrefixOf rest

def drop (n : Nat) : Computation Unit := modify fun s => { s with rest := s.rest.drop n }

def take? (sign : String) : Computation Bool := do
  if (← sign?) == some sign then
    drop sign.length
    return true
  else return false

def numberOf (text : Octets) : Computation Int := do
  if text.all isBlank then return 0
  match leadingNumber text with
  | some (n, rest) => if rest.all isBlank then return n else throw (.illegalNumber text)
  | none => throw (.illegalNumber text)

def value (name : Octets) : Computation Int := do
  match (← get).vars.lookup name with
  | some text => numberOf text
  | none => return 0

def ofBool (b : Bool) : Int := if b then 1 else 0

def apply (live : Bool) (op : String) (a b : Int) : Computation Int := do
  match op with
  | "+" => return wrapped (a + b)
  | "-" => return wrapped (a - b)
  | "*" => return wrapped (a * b)
  | "/" =>
    if b = 0 then (if live then throw .divisionByZero else return 0) else return wrapped (a.tdiv b)
  | "%" =>
    if b = 0 then (if live then throw .divisionByZero else return 0) else return wrapped (a.tmod b)
  | "<<" => return wrapped (a * Int.pow 2 (b % 64).toNat)
  | ">>" => return a / Int.pow 2 (b % 64).toNat
  | "<" => return ofBool (a < b)
  | "<=" => return ofBool (a ≤ b)
  | ">" => return ofBool (b < a)
  | ">=" => return ofBool (b ≤ a)
  | "==" => return ofBool (a = b)
  | "!=" => return ofBool (a ≠ b)
  | "&" => return (a.toInt64 &&& b.toInt64).toInt
  | "|" => return (a.toInt64 ||| b.toInt64).toInt
  | _ => return (a.toInt64 ^^^ b.toInt64).toInt

/-- Operators from the loosest to the tightest. -/
def levels : List (List String) :=
  [["|"], ["^"], ["&"], ["==", "!="], ["<", "<=", ">", ">="], ["<<", ">>"], ["+", "-"],
   ["*", "/", "%"]]

mutual

def expression (live : Bool) : Nat → Computation Int
  | 0 => throw (.expecting "primary")
  | fuel + 1 => do
    blanks
    let before ← get
    let name := before.rest.takeWhile isNamePart
    if isName name then
      drop name.length
      match ← sign? with
      | some op =>
        if op == "=" || (op.endsWith "=" && !(["==", "!=", "<=", ">="].contains op)) then
          drop op.length
          let right ← expression live fuel
          if !live then return right
          let n ← if op == "=" then pure right
            else apply live (op.take (op.length - 1)).toString (← value name) right
          modify fun s => { s with vars := s.vars.put name (toString n).toList }
          return n
      | none => pure ()
      set before
    conditional live fuel

def conditional (live : Bool) : Nat → Computation Int
  | 0 => throw (.expecting "primary")
  | fuel + 1 => do
    let c ← disjunction live fuel
    if ← take? "?" then
      let yes ← expression (live && c ≠ 0) fuel
      unless ← take? ":" do throw (.expecting "':'")
      let no ← conditional (live && c = 0) fuel
      return if c ≠ 0 then yes else no
    else return c

def disjunction (live : Bool) : Nat → Computation Int
  | 0 => throw (.expecting "primary")
  | fuel + 1 => do
    let a ← conjunction live fuel
    if ← take? "||" then
      let b ← disjunction (live && a = 0) fuel
      return ofBool (a ≠ 0 || b ≠ 0)
    else return a

def conjunction (live : Bool) : Nat → Computation Int
  | 0 => throw (.expecting "primary")
  | fuel + 1 => do
    let a ← level live levels fuel
    if ← take? "&&" then
      let b ← conjunction (live && a ≠ 0) fuel
      return ofBool (a ≠ 0 && b ≠ 0)
    else return a

def level (live : Bool) (ops : List (List String)) : Nat → Computation Int
  | 0 => throw (.expecting "primary")
  | fuel + 1 => do
    match ops with
    | [] => unary live fuel
    | _ :: tighter => levelFrom live ops (← level live tighter fuel) fuel

def levelFrom (live : Bool) (ops : List (List String)) (a : Int) : Nat → Computation Int
  | 0 => throw (.expecting "primary")
  | fuel + 1 => do
    match ops, ← sign? with
    | these :: tighter, some op =>
      if these.contains op then
        drop op.length
        let b ← level live tighter fuel
        levelFrom live ops (← apply live op a b) fuel
      else return a
    | _, _ => return a

def unary (live : Bool) : Nat → Computation Int
  | 0 => throw (.expecting "primary")
  | fuel + 1 => do
    if ← take? "!" then return ofBool ((← unary live fuel) = 0)
    if ← take? "~" then return -(← unary live fuel) - 1
    if ← take? "-" then return wrapped (-(← unary live fuel))
    if ← take? "+" then unary live fuel
    else if ← take? "(" then
      let n ← expression live fuel
      unless ← take? ")" do throw (.expecting "')'")
      return n
    else
      let rest := (← get).rest
      let name := rest.takeWhile isNamePart
      if isName name then
        drop name.length
        if live then value name else return 0
      else
        match leadingNumber rest with
        | some (n, left) =>
          if rest.head?.any Decimal.isDigit then
            modify fun s => { s with rest := left }
            return n
          else throw (.expecting "primary")
        | none => throw (.expecting "primary")

end

end Arithmetic

/-- The value of an expression, and the variables behind it. -/
def compute (vars : Table) (text : Octets) : Except ArithmeticFault (Int × Table) := do
  let (n, s) ← (Arithmetic.expression true (16 * text.length + 64)).run ⟨text, vars⟩
  if s.rest.all Arithmetic.isBlank then return (n, s.vars) else throw (.expecting "EOF")

def ArithmeticFault.message (text : Octets) : ArithmeticFault → String
  | .expecting what => s!"arithmetic expression: expecting {what}: \"{String.ofList text}\""
  | .divisionByZero => s!"arithmetic expression: division by zero: \"{String.ofList text}\""
  | .illegalNumber number => s!"Illegal number: {String.ofList number}"

end OperationHooks.Shell
