import OperationHooks.Template.Fault
import OperationHooks.Template.Wellformed

set_option autoImplicit false

namespace OperationHooks.Template

def bracketsFrom (opened : Nat) : Tokens → Nat
  | [] => opened
  | (.operator op, _) :: rest =>
    if op == "(" || op == "[" then bracketsFrom (opened + 1) rest
    else if op == ")" || op == "]" then max opened (bracketsFrom (opened - 1) rest)
    else bracketsFrom opened rest
  | _ :: rest => bracketsFrom opened rest

def Piece.brackets : Piece → Nat
  | .text _ => 0
  | .print tokens | .statement tokens => bracketsFrom 0 tokens

mutual

def Expr.depth : Expr → Nat
  | .literal _ | .variable _ => 0
  | .list es | .tuple es | .concat es => depthOf es + 1
  | .attribute a _ | .not a | .negate a | .plus a => a.depth + 1
  | .item a b | .arithmetic _ a b | .both a b | .either a b => max a.depth b.depth + 1
  | .slice a start stop step =>
    max a.depth (max (depthIn start) (max (depthIn stop) (depthIn step))) + 1
  | .call a args | .filter a _ args | .test a _ args => max a.depth (depthAmong args) + 1
  | .compare a rest => max a.depth (depthCompared rest) + 1
  | .conditional _ c a b => max c.depth (max a.depth (depthIn b)) + 1

def depthOf : List Expr → Nat
  | [] => 0
  | e :: rest => max e.depth (depthOf rest)

def depthIn : Option Expr → Nat
  | none => 0
  | some e => e.depth

def depthAmong : List (Option String × Expr) → Nat
  | [] => 0
  | (_, e) :: rest => max e.depth (depthAmong rest)

def depthCompared : List (Comparison × Expr) → Nat
  | [] => 0
  | (_, e) :: rest => max e.depth (depthCompared rest)

end

mutual

def Node.expressions : Node → List Expr
  | .text _ => []
  | .print e | .assign _ e | .include e _ _ | .extends e => [e]
  | .branch c yes no => c :: expressionsOf yes ++ expressionsOf no
  | .loop _ source c body otherwise =>
    source :: c.toList ++ expressionsOf body ++ expressionsOf otherwise
  | .capture _ body | .block _ body => expressionsOf body

def expressionsOf : List Node → List Expr
  | [] => []
  | n :: rest => n.expressions ++ expressionsOf rest

end

def Node.isLoop : Node → Bool
  | .loop .. => true
  | _ => false

mutual

/-- How many nodes of a kind stand inside each other. The alternative of a choice is no deeper than
the choice: it may be one more case of it. -/
def Node.levels (counts : Node → Bool) (n : Node) : Nat :=
  (if counts n then 1 else 0) + match n with
    | .text _ | .print _ | .assign _ _ | .include _ _ _ | .extends _ => 0
    | .branch _ yes no => max (levelsOf counts yes) (levelsOf counts no - 1)
    | .loop _ _ _ body otherwise => max (levelsOf counts body) (levelsOf counts otherwise)
    | .capture _ body | .block _ body => levelsOf counts body

def levelsOf (counts : Node → Bool) : List Node → Nat
  | [] => 0
  | n :: rest => max (n.levels counts) (levelsOf counts rest)

end

def maxBrackets : Nat := 70
def maxOperators : Nat := 200
def maxStatements : Nat := 90
def maxLoops : Nat := 20

/-- A template cannot be turned into a program. -/
def goesTooDeep (template : List Node) : Bool :=
  (expressionsOf template).any (·.depth > maxOperators) ||
    levelsOf (fun _ => true) template > maxStatements || levelsOf Node.isLoop template > maxLoops

/-- Reads a template that is not too deep. -/
def read (source : String) : Except Fault Template :=
  if ((pieces source).getD []).any (·.brackets > maxBrackets) then .error .tooDeep
  else match parse? source with
    | none => .error .malformed
    | some template => if goesTooDeep template then .error .tooDeep else .ok template

end OperationHooks.Template
