import OperationHooks.Template.Operation
import OperationHooks.Text.Blank
import OperationHooks.Text.Case

set_option autoImplicit false

namespace OperationHooks.Template.Value

open Text (Point Wide)

def capitalized : Wide → Wide
  | [] => []
  | .char c :: rest => .ofChars (Text.upperChar c) ++ Wide.mapRuns Text.lower rest
  | half :: rest => half :: Wide.mapRuns Text.lower rest

/-- The first letter of every word in upper case, the others in lower case. -/
def titleFrom (inWord : Bool) : Wide → Wide
  | [] => []
  | .char c :: rest =>
    let isLetter := Text.upperChar c != [c] || Text.lowerChar c != [c]
    Wide.ofChars (if isLetter && !inWord then Text.upperChar c else Text.lowerChar c) ++
      titleFrom isLetter rest
  | half :: rest => half :: titleFrom false rest

/-- Replaces occurrences from the left; `skip` points belong to one already replaced. -/
def replaceFrom (old new : Wide) (skip : Nat) : Wide → Wide
  | [] => []
  | p :: rest =>
    match skip with
    | skip + 1 => replaceFrom old new skip rest
    | 0 =>
      if !old.isEmpty && old.isPrefixOf (p :: rest) then
        new ++ replaceFrom old new (old.length - 1) rest
      else p :: replaceFrom old new 0 rest

/-- An empty text occurs before every character and at the end. -/
def replaced (s old new : Wide) : Wide :=
  if old.isEmpty then new ++ s.flatMap fun p => p :: new else replaceFrom old new 0 s

def trimmed (s : Wide) (start stop : Bool) : Wide :=
  let s := if start then s.trimStart else s
  if stop then s.trimEnd else s

def plainMethod? (s : Wide) : String → Option Wide
  | "upper" => some (s.mapRuns Text.upper)
  | "lower" => some (s.mapRuns Text.lower)
  | "capitalize" => some (capitalized s)
  | "title" => some (titleFrom false s)
  | _ => none

abbrev Arguments := List (Option String × Value)

def positional (args : Arguments) : List Value := (args.filter (·.1.isNone)).map (·.2)

def hasNames (args : Arguments) : Bool := args.any (·.1.isSome)

def callMethod (s : Wide) (name : String) (args : Arguments) : Except Fault Value :=
  match plainMethod? s name with
  | some result =>
    if hasNames args then .error (.typeMismatch s!"str.{name}() takes no keyword arguments")
    else if args.isEmpty then .ok (.text result)
    else .error (.typeMismatch s!"str.{name}() takes no arguments ({args.length} given)")
  | none =>
    match name, positional args with
    | "strip", [] => .ok (.text (trimmed s true true))
    | "lstrip", [] => .ok (.text (trimmed s true false))
    | "rstrip", [] => .ok (.text (trimmed s false true))
    | "replace", [.text old, .text new] => .ok (.text (replaced s old new))
    | "startswith", [.text t] => .ok (.boolean (t.isPrefixOf s))
    | "endswith", [.text t] => .ok (.boolean (t.isSuffixOf s))
    | _, _ => .error (.typeMismatch s!"str.{name}() called with wrong arguments")

def argument? (args : Arguments) (place : Nat) (name : String) : Option Value :=
  (positional args)[place]? <|> args.lookup (some name)

def placesText (least most : Nat) : String :=
  let plural := if most == 1 then "" else "s"
  if least == most then s!"{most} positional argument{plural}"
  else s!"from {least} to {most} positional arguments"

def callFault? (function : String) (names : List String) (args : Arguments) : Option Fault :=
  let given := (positional args).length
  let unexpected? := (args.filterMap (·.1)).find? (!names.contains ·)
  let repeated? := (args.filterMap (·.1)).find? (names.take given).contains
  match unexpected?, repeated? with
  | some name, _ =>
    some (.typeMismatch s!"{function}() got an unexpected keyword argument '{name}'")
  | none, some name =>
    some (.typeMismatch s!"{function}() got multiple values for argument '{name}'")
  | none, none =>
    if given ≤ names.length then none
    else
      let places := placesText 1 (names.length + 1)
      some (.typeMismatch s!"{function}() takes {places} but {given + 1} were given")

def called (function : String) (names : List String) (args : Arguments)
    (result : Except Fault Value) :
    Except Fault Value :=
  match callFault? function names args with
  | some fault => .error fault
  | none => result

def lengthCalled (v : Value) (args : Arguments) : Except Fault Value :=
  if hasNames args then .error (.typeMismatch "len() takes no keyword arguments")
  else if args.isEmpty then v.length
  else .error (.typeMismatch s!"len() takes exactly one argument ({args.length + 1} given)")

/-- A value that is not defined gives way to another, on demand also one that does not hold. -/
def withDefault (v : Value) (args : Arguments) : Except Fault Value := do
  let otherwise := (argument? args 0 "default_value").getD (.text [])
  if v.isUndefined then return otherwise
  let alsoEmpty ← (argument? args 1 "boolean").elim (.ok false) truth
  if alsoEmpty && !(← v.truth) then return otherwise else return v

def ofText (v : Value) (f : Wide → Wide) : Except Fault Value := v.printed.map fun s => .text (f s)

def joinedWith (separator : Wide) (vs : List Value) : Except Fault Value := do
  return .text (separator.intercalate (← vs.mapM printed))

def filter (name : String) (v : Value) (args : Arguments) : Except Fault Value :=
  match name with
  | "default" | "d" => called "do_default" ["default_value", "boolean"] args (withDefault v args)
  | "upper" => called "do_upper" [] args (ofText v (·.mapRuns Text.upper))
  | "lower" => called "do_lower" [] args (ofText v (·.mapRuns Text.lower))
  | "capitalize" => called "do_capitalize" [] args (ofText v capitalized)
  | "title" => called "do_title" [] args (ofText v (titleFrom false))
  | "trim" => ofText v fun s => trimmed s true true
  | "string" => called "soft_str" [] args (v.printed.map .text)
  | "length" | "count" => lengthCalled v args
  | "first" => do return ((← v.items).head?).getD (.undefined (.endOfNothing "first"))
  | "last" => do return ((← v.items).getLast?).getD (.undefined (.endOfNothing "last"))
  | "reverse" =>
    match v with
    | .text s => .ok (.text s.reverse)
    | v => do return .list (← v.items).reverse
  | "join" => do
    let separator ← (argument? args 0 "d").elim (.ok []) printed
    joinedWith separator (← v.items)
  | "replace" =>
    match positional args with
    | [old, new] => do
      let old ← old.printed
      let new ← new.printed
      v.ofText (replaced · old new)
    | _ => .error (.typeMismatch "do_replace() called with wrong arguments")
  | _ => .error (.unknownFilter name)

def isText : Value → Bool
  | .text _ => true
  | _ => false

def isNone : Value → Bool
  | .nothing => true
  | _ => false

def isBoolean (expected : List Bool) : Value → Bool
  | .boolean b => expected.contains b
  | _ => false

def isInteger : Value → Bool
  | .integer _ => true
  | _ => false

def parity (v : Value) : Except Fault Int :=
  match v with
  | .undefined what => failing what
  | v =>
    match v.integer? with
    | some n => .ok (Int.fmod n 2)
    | none => .error (.typeMismatch "not all arguments converted during string formatting")

def plainTest? (v : Value) : String → Option (Except Fault Bool)
  | "defined" => some (.ok !v.isUndefined)
  | "undefined" => some (.ok v.isUndefined)
  | "none" => some (.ok v.isNone)
  | "string" => some (.ok v.isText)
  | "number" => some (.ok v.isNumber)
  | "integer" => some (.ok v.isInteger)
  | "boolean" => some (.ok (isBoolean [true, false] v))
  | "true" => some (.ok (isBoolean [true] v))
  | "false" => some (.ok (isBoolean [false] v))
  | "odd" => some ((parity v).map (· == 1))
  | "even" => some ((parity v).map (· == 0))
  | "upper" => some (v.printed.map fun s => s == s.mapRuns Text.upper && s != s.mapRuns Text.lower)
  | "lower" => some (v.printed.map fun s => s == s.mapRuns Text.lower && s != s.mapRuns Text.upper)
  | _ => none

def test (name : String) (v : Value) (args : Arguments) : Except Fault Bool :=
  match plainTest? v name, name, positional args with
  | some result, _, _ =>
    match callFault? s!"test_{name}" [] args with
    | some fault => .error fault
    | none => result
  | none, "eq", [w] => compare .equal v w
  | none, "ne", [w] => compare .notEqual v w
  | none, _, _ => .error (.unknownTest name)

end OperationHooks.Template.Value
