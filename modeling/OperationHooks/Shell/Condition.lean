import OperationHooks.Shell.Printing

set_option autoImplicit false

namespace OperationHooks.Shell

/-- What a path leads to. -/
inductive Entry where
  | directory
  | file (content : Octets) (executable : Bool)

inductive ConditionFault where
  | plain (message : String)
  | named (operator : Octets) (message : String)

def ConditionFault.text : ConditionFault → Octets
  | plain message => message.toList
  | named operator message => operator ++ ": ".toList ++ message.toList

abbrev Answer := Except ConditionFault Bool

namespace Condition

def unaryOperators : List Octets :=
  ["-n", "-z", "-e", "-f", "-d", "-s", "-r", "-w", "-x", "-h", "-L", "-b", "-c",
   "-p", "-S", "-t", "-u",
   "-g", "-k", "-O", "-G"].map String.toList

def binaryOperators : List Octets :=
  ["=", "!=", "<", ">", "-eq", "-ne", "-lt", "-le", "-gt", "-ge", "-nt", "-ot",
    "-ef"].map String.toList

def isUnary (cs : Octets) : Bool := unaryOperators.contains cs
def isBinary (cs : Octets) : Bool := binaryOperators.contains cs

def fileTest (look : Octets → Option Entry) (op path : Octets) : Bool :=
  match String.ofList op, look path with
  | "-f", some (.file _ _) => true
  | "-d", some .directory => true
  | "-s", some (.file content _) => !content.isEmpty
  | "-s", some .directory => true
  | "-x", some (.file _ executable) => executable
  | "-x", some .directory => true
  | "-e", some _ | "-r", some _ | "-w", some _ | "-O", some _ | "-G", some _ => true
  | _, _ => false

def numberOf (cs : Octets) : Except ConditionFault Int :=
  let trimmed := (cs.dropWhile (· == ' ')).reverse.dropWhile (· == ' ') |>.reverse
  let (negative, digits) := Decimal.splitSign trimmed
  if digits.isEmpty || !digits.all Decimal.isDigit then
    .error (.plain s!"Illegal number: {String.ofList cs}")
  else .ok (Decimal.signed negative (Decimal.naturalD digits))

def binary (op a b : Octets) : Answer :=
  let numbers (f : Int → Int → Bool) : Answer := do return f (← numberOf a) (← numberOf b)
  match String.ofList op with
  | "=" => .ok (a == b)
  | "!=" => .ok (a != b)
  | "<" => .ok (decide (a < b))
  | ">" => .ok (decide (b < a))
  | "-eq" => numbers (· == ·)
  | "-ne" => numbers (· != ·)
  | "-lt" => numbers fun x y => decide (x < y)
  | "-le" => numbers fun x y => decide (x ≤ y)
  | "-gt" => numbers fun x y => decide (y < x)
  | "-ge" => numbers fun x y => decide (y ≤ x)
  | _ => .ok false

/-- A sign in front of a single word or of an operator is a word. -/
def isOperand (rest : List Octets) : Bool :=
  match rest with
  | [] => true
  | [_] => false
  | _ :: op :: _ => isBinary op

abbrev Reading := Except ConditionFault (Bool × List Octets)

mutual

def disjunction (look : Octets → Option Entry) : Nat → List Octets → Reading
  | 0, words => .ok (false, words)
  | fuel + 1, words => do
    let (a, rest) ← conjunction look fuel words
    match rest with
    | ['-', 'o'] :: more =>
      let (b, left) ← disjunction look fuel more
      return (a || b, left)
    | rest => return (a, rest)

def conjunction (look : Octets → Option Entry) : Nat → List Octets → Reading
  | 0, words => .ok (false, words)
  | fuel + 1, words => do
    let (a, rest) ← negation look fuel words
    match rest with
    | ['-', 'a'] :: more =>
      let (b, left) ← conjunction look fuel more
      return (a && b, left)
    | rest => return (a, rest)

def negation (look : Octets → Option Entry) : Nat → List Octets → Reading
  | 0, words => .ok (false, words)
  | fuel + 1, words =>
    match words with
    | ['!'] :: rest =>
      if isOperand rest && !rest.isEmpty then primary look fuel words
      else (negation look fuel rest).map fun (b, left) => (!b, left)
    | words => primary look fuel words

def primary (look : Octets → Option Entry) : Nat → List Octets → Reading
  | 0, words => .ok (false, words)
  | fuel + 1, words =>
    match words with
    | [] => .ok (false, [])
    | ['('] :: first :: rest => do
      let (b, left) ← disjunction look fuel (first :: rest)
      match left with
      | [')'] :: left => return (b, left)
      | _ => throw (.plain "closing paren expected")
    | op :: rest =>
      if isUnary op && !isOperand rest then
        match rest with
        | value :: left =>
          match op with
          | ['-', 'n'] => .ok (!value.isEmpty, left)
          | ['-', 'z'] => .ok (value.isEmpty, left)
          | op => .ok (fileTest look op value, left)
        | [] => .error (.named op "argument expected")
      else
        match rest with
        | second :: right =>
          if isBinary second then
            match right with
            | value :: left => (binary second op value).map (·, left)
            | [] => .error (.named second "argument expected")
          else .ok (!op.isEmpty, rest)
        | [] => .ok (!op.isEmpty, [])

end

/-- With three words an operator in the middle joins the others; a sign in front of few words turns
the answer around. -/
def answer (look : Octets → Option Entry) : Nat → List Octets → Answer
  | 0, _ => .ok false
  | fuel + 1, words =>
    let whole (words : List Octets) : Answer := do
      let (b, left) ← disjunction look (8 * words.length + 16) words
      if left.isEmpty then return b
      else throw (.named (words.getD (words.length - left.length - 1) []) "unexpected operator")
    match words with
    | [] => .ok false
    | [a, op, b] =>
      if isBinary op then binary op a b
      else if a == ['!'] then (answer look fuel [op, b]).map (!·)
      else if a == ['('] && b == [')'] then whole [op]
      else whole words
    | [a, b, c, d] =>
      if a == ['('] && d == [')'] then whole [b, c]
      else if a == ['!'] then (answer look fuel [b, c, d]).map (!·)
      else whole words
    | words => whole words

end Condition

/-- Whether the words state something true. -/
def holds (look : Octets → Option Entry) (words : List Octets) : Answer :=
  Condition.answer look 4 words

end OperationHooks.Shell
