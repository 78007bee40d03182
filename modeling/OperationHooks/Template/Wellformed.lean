import OperationHooks.Template.Grammar
/-!
Which templates can be used: their blocks have different names, only an outermost node says what is
extended, and the filters and tests they name are known. A name inside of a choice is an exception,
for it may never be used.
-/
set_option autoImplicit false

namespace OperationHooks.Template

mutual

/-- Some part of an expression satisfies `p`; what `closed` holds of is not looked into. -/
def Expr.anyPart (p closed : Expr → Bool) (e : Expr) : Bool :=
  p e || !closed e && match e with
    | .literal _ | .variable _ => false
    | .list es | .tuple es | .concat es => anyPartOf p closed es
    | .attribute a _ | .not a | .negate a | .plus a => a.anyPart p closed
    | .item a b | .arithmetic _ a b | .both a b | .either a b => a.anyPart p closed ||
      b.anyPart p closed
    | .slice a start stop step =>
      a.anyPart p closed || anyPartIn p closed start || anyPartIn p closed stop ||
        anyPartIn p closed step
    | .call a args | .filter a _ args | .test a _ args => a.anyPart p closed ||
      anyPartAmong p closed args
    | .compare a rest => a.anyPart p closed || anyPartCompared p closed rest
    | .conditional _ c a b => c.anyPart p closed || a.anyPart p closed || anyPartIn p closed b

def anyPartOf (p closed : Expr → Bool) : List Expr → Bool
  | [] => false
  | e :: rest => e.anyPart p closed || anyPartOf p closed rest

def anyPartIn (p closed : Expr → Bool) : Option Expr → Bool
  | none => false
  | some e => e.anyPart p closed

def anyPartAmong (p closed : Expr → Bool) : List (Option String × Expr) → Bool
  | [] => false
  | (_, e) :: rest => e.anyPart p closed || anyPartAmong p closed rest

def anyPartCompared (p closed : Expr → Bool) : List (Comparison × Expr) → Bool
  | [] => false
  | (_, e) :: rest => e.anyPart p closed || anyPartCompared p closed rest

end

def Expr.mentions (name : String) (e : Expr) : Bool :=
  e.anyPart (fun part => match part with
    | .variable s => s == name
    | _ => false) fun _ => false

mutual

/-- A name is used by a node, blocks within it left out. -/
def Node.mentions (name : String) : Node → Bool
  | .text _ | .block _ _ => false
  | .print e | .assign _ e | .include e _ _ | .extends e => e.mentions name
  | .branch c yes no => c.mentions name || mentionedIn name yes || mentionedIn name no
  | .loop _ source c body otherwise =>
    source.mentions name || c.any (·.mentions name) || mentionedIn name body ||
      mentionedIn name otherwise
  | .capture _ body => mentionedIn name body

def mentionedIn (name : String) : List Node → Bool
  | [] => false
  | n :: rest => n.mentions name || mentionedIn name rest

end

mutual

def Target.binds (name : String) : Target → Bool
  | .name s => s == name
  | .part _ _ => false
  | .several targets => boundAmong name targets

def boundAmong (name : String) : List Target → Bool
  | [] => false
  | t :: rest => t.binds name || boundAmong name rest

end

mutual

/-- A name is set by a node or one inside of it. -/
def Node.binds (name : String) : Node → Bool
  | .text _ | .print _ | .include _ _ _ | .extends _ => false
  | .assign target _ => target.binds name
  | .branch _ yes no => boundIn name yes || boundIn name no
  | .loop target _ _ body otherwise =>
    target.binds name || boundIn name body || boundIn name otherwise
  | .capture target body => target.binds name || boundIn name body
  | .block _ body => boundIn name body

def boundIn (name : String) : List Node → Bool
  | [] => false
  | n :: rest => n.binds name || boundIn name rest

end

mutual

def Node.blocks : Node → List (String × List Node)
  | .text _ | .print _ | .assign _ _ | .include _ _ _ | .extends _ => []
  | .branch _ yes no => blocksOf yes ++ blocksOf no
  | .loop _ _ _ body otherwise => blocksOf body ++ blocksOf otherwise
  | .capture _ body => blocksOf body
  | .block name body => (name, body) :: blocksOf body

def blocksOf : List Node → List (String × List Node)
  | [] => []
  | n :: rest => n.blocks ++ blocksOf rest

end

mutual

def Node.isExtending : Node → Bool
  | .extends _ => true
  | .branch _ yes no => anyExtending yes || anyExtending no
  | .loop _ _ _ body otherwise => anyExtending body || anyExtending otherwise
  | .capture _ body | .block _ body => anyExtending body
  | _ => false

def anyExtending : List Node → Bool
  | [] => false
  | n :: rest => n.isExtending || anyExtending rest

end

def filterNames : List String :=
  ["upper", "lower", "length", "count", "default", "d", "capitalize", "trim", "first", "last",
   "replace", "string", "join", "reverse", "title"]

def testNames : List String :=
  ["defined", "undefined", "none", "string", "number", "integer", "boolean", "true", "false", "odd",
   "even", "eq", "ne", "upper", "lower"]

def Expr.isUnknownUse : Expr → Bool
  | .filter _ name _ => !(filterNames.contains name)
  | .test _ name _ => !(testNames.contains name)
  | _ => false

def Expr.isChoice : Expr → Bool
  | .conditional .. => true
  | _ => false

def Expr.known (e : Expr) : Bool := !e.anyPart Expr.isUnknownUse Expr.isChoice

structure Place where
  outermost : Bool
  first : Bool
  inChoice : Bool
  silenced : Bool

def Place.choice (p : Place) : Place := { p with first := false, inChoice := true }

def Place.inside (p : Place) : Place := ⟨false, false, false, p.silenced⟩

def Place.accepts (p : Place) (e : Expr) : Bool := p.inChoice || e.known

def unlessBroken (holds : Bool) (extended : Bool) : Option Bool :=
  if holds then some extended else none

mutual

/-- Checks a node; `extended` says whether another template is known to be extended, before the node
and, in the answer, behind it. -/
def Node.check (p : Place) (extended : Bool) : Node → Option Bool
  | .text _ | .block _ _ => some extended
  | .print e => unlessBroken (extended && p.silenced || p.accepts e) extended
  | .assign _ e | .include e _ _ => unlessBroken (p.accepts e) extended
  | .branch _ yes no => do checkAll p.choice (← checkAll p.choice extended yes) no
  | .loop target source condition body otherwise =>
    if p.accepts source && condition.all Expr.known &&
        !(target.binds "loop" || boundIn "loop" body || boundIn "loop" otherwise) then do
      checkAll p.inside (← checkAll p.inside extended body) otherwise
    else none
  | .capture _ body => checkAll { p.inside with silenced := false } extended body
  | .extends e => unlessBroken (p.outermost && (extended || p.accepts e)) (extended || p.first)

def checkAll (p : Place) (extended : Bool) : List Node → Option Bool
  | [] => some extended
  | n :: rest => do
    let after ← n.check p extended
    if extended && n matches .extends _ then return after else checkAll p after rest

end

def isSound (nodes : List Node) : Bool :=
  let blocks := blocksOf nodes
  let names := blocks.map (·.1)
  let root : Place := ⟨true, true, false, anyExtending nodes⟩
  names.eraseDups.length == names.length && (checkAll root false nodes).isSome &&
    blocks.all fun (_, body) => (checkAll ⟨false, false, false, false⟩ false body).isSome

/-- Reads a template; `none` if the text is not one. -/
def parse? (source : String) : Option Template := (nodes? source).filter isSound

end OperationHooks.Template
