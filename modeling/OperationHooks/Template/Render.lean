import OperationHooks.Template.Filter
import OperationHooks.Template.Wellformed
/-!
Rendering. Names set inside a loop end with it; a block sees only what is set outside of all loops.
A template that extends another supplies blocks for it and prints nothing more of its own.
-/
set_option autoImplicit false

namespace OperationHooks.Template

open Text (Wide)

abbrev Variables := List (String × Value)

abbrev Blocks := List (String × List BlockBody)

abbrev Loader := String → Except Fault (Option Template)

/-- What is known at a place of a template: the variables blocks see, all variables, and the blocks.
-/
structure Scope where
  shared : Variables
  vars : Variables
  blocks : Blocks

structure Surroundings where
  name : String
  load : Loader
  enterTemplate : Variables → String → Template → Except Fault Wide
  enterBlock : Blocks → Variables → String → List BlockBody → Except Fault Wide

def lookUp (vars : Variables) (name : String) : Value :=
  (vars.lookup name).getD (.undefined (.variable name))

def callValue (s : Surroundings) (scope : Scope) (v : Value) (args : Value.Arguments) :
    Except Fault Value :=
  match v with
  | .undefined what => .error (.undefined what)
  | .method receiver name => Value.callMethod receiver name args
  | .parentBlock name bodies => (s.enterBlock scope.blocks scope.shared name bodies).map .text
  | v => .error (.typeMismatch s!"'{v.typeName}' object is not callable")

mutual

def eval (s : Surroundings) (scope : Scope) : Expr → Except Fault Value
  | .literal l => .ok (.ofLiteral l)
  | .variable name => .ok (lookUp scope.vars name)
  | .list items => do return .list (← evalAll s scope items)
  | .tuple items => do return .tuple (← evalAll s scope items)
  | .attribute e name => do (← eval s scope e).member (.ofString name)
  | .item e index => do
    let v ← eval s scope e
    v.item (← eval s scope index)
  | .slice e start stop step => do
    let v ← eval s scope e
    let start ← evalOption s scope start
    let stop ← evalOption s scope stop
    v.slice start stop (← evalOption s scope step)
  | .call e args => do
    let v ← eval s scope e
    callValue s scope v (← evalArgs s scope args)
  | .filter e name args => do
    let v ← eval s scope e
    v.filter name (← evalArgs s scope args)
  | .test e name args => do
    let v ← eval s scope e
    return .boolean (← v.test name (← evalArgs s scope args))
  | .not e => do return .boolean !(← (← eval s scope e).truth)
  | .negate e => do (← eval s scope e).signed true
  | .plus e => do (← eval s scope e).signed false
  | .concat parts => do
    let values ← evalAll s scope parts
    return .text (← values.mapM Value.printed).flatten
  | .arithmetic op a b => do
    let left ← eval s scope a
    left.arithmetic op (← eval s scope b)
  | .compare first rest => do
    return .boolean (← evalCompared s scope (← eval s scope first) rest)
  | .both a b => do
    let left ← eval s scope a
    if ← left.truth then eval s scope b else return left
  | .either a b => do
    let left ← eval s scope a
    if ← left.truth then return left else eval s scope b
  | .conditional line condition yes no => do
    if ← (← eval s scope condition).truth then eval s scope yes
    else return (← evalOption s scope no).getD (.undefined (.alternative line s.name))

def evalAll (s : Surroundings) (scope : Scope) : List Expr → Except Fault (List Value)
  | [] => .ok []
  | e :: rest => do return (← eval s scope e) :: (← evalAll s scope rest)

def evalOption (s : Surroundings) (scope : Scope) : Option Expr → Except Fault (Option Value)
  | none => .ok none
  | some e => do return some (← eval s scope e)

def evalArgs (s : Surroundings) (scope : Scope) :
    List (Option String × Expr) → Except Fault Value.Arguments
  | [] => .ok []
  | (name, e) :: rest => do return (name, ← eval s scope e) :: (← evalArgs s scope rest)

def evalCompared (s : Surroundings) (scope : Scope) (left : Value) :
    List (Comparison × Expr) → Except Fault Bool
  | [] => .ok true
  | (op, e) :: rest => do
    let right ← eval s scope e
    if ← left.compare op right then evalCompared s scope right rest else return false

end

/-- The name of a single template. No file has a name with half of a pair in it. -/
def templateName : Value → Except Fault Wide
  | .text name => .ok name
  | .undefined what => .error (.undefined what)
  | .list _ => .error (.typeMismatch "unhashable type: 'list'")
  | v => .error (.noMember s!"'{v.typeName}' object has no attribute 'split'")

def findTemplate (load : Loader) (v : Value) : Except Fault (String × Template) := do
  let name ← templateName v
  match name.toText? with
  | none => throw (.notFound name)
  | some plain =>
    match ← load plain with
    | some t => return (plain, t)
    | none => throw (.notFound name)

def wantedText : Value → Except Fault Wide
  | .undefined what => .ok (.ofString what.message)
  | v => v.printed

def foundOrAbsent : Except Fault (String × Template) → Except Fault (Option (String × Template))
  | .ok found => .ok (some found)
  | .error (.notFound _) | .error (.undefined _) => .ok none
  | .error fault => .error fault

def firstFound (load : Loader) : List Value → Except Fault (Option (String × Template))
  | [] => .ok none
  | v :: rest => do
    match ← foundOrAbsent (findTemplate load v) with
    | some found => return some found
    | none => firstFound load rest

def selectTemplate (load : Loader) (v : Value) : Except Fault (String × Template) := do
  match v with
  | .text _ | .undefined _ => findTemplate load v
  | v =>
    if !(← v.truth) then throw .nothingWanted
    let wanted ← v.items
    match ← firstFound load wanted with
    | some found => return found
    | none => throw (.noneFound (← wanted.mapM wantedText))

def Fault.isAbsence : Fault → Bool
  | notFound _ | noneFound _ | nothingWanted => true
  | _ => false

/-- Adds the bodies of a template behind those that override them. -/
def addBlocks (blocks : Blocks) (name : String) (template : Template) : Blocks :=
  (blocksOf template).foldl (fun blocks (block, nodes) =>
    let bodies := (blocks.lookup block).getD [] ++ [⟨name, nodes⟩]
    (block, bodies) :: blocks.filter (·.1 != block)) blocks

mutual

/-- The variables a target takes its values into, the last one first. -/
def Target.bind (v : Value) : Target → Except Fault Variables
  | .name s => .ok [(s, v)]
  | .part _ _ => .error .partOfNothing
  | .several targets => do bindAll (← v.unpacked targets.length) targets

def bindAll (vs : List Value) : List Target → Except Fault Variables
  | [] => .ok []
  | t :: rest =>
    match vs with
    | [] => .ok []
    | v :: others => do
      let first ← t.bind v
      return (← bindAll others rest) ++ first

end

/-- The variables of a round of a loop; none if the loop passes over the value. -/
abbrev Binding := Except Fault (Option Variables)

def bindRound (s : Surroundings) (scope : Scope) (target : Target)
    (condition : Option Expr) (v : Value) :
    Binding := do
  let bound ← target.bind v
  match condition with
  | none => return some bound
  | some e =>
    if ← (← eval s { scope with vars := bound ++ scope.vars } e).truth then return some bound
    else return none

def anyRound : List Binding → Except Fault Bool
  | [] => .ok false
  | binding :: rest => do if (← binding).isSome then return true else anyRound rest

def countRounds (bindings : List Binding) : Except Fault Nat := do
  return (← bindings.mapM id).countP Option.isSome

def withRest {α : Type} : List α → List (α × List α)
  | [] => []
  | x :: rest => (x, rest) :: withRest rest

structure Rendered where
  pieces : List Wide
  scope : Scope
  parent : Option (String × Template)

namespace Rendered

def start (blocks : Blocks) (shared vars : Variables) : Rendered :=
  ⟨[], ⟨shared, vars, blocks⟩, none⟩

def add (r : Rendered) (s : Wide) : Rendered := { r with pieces := r.pieces ++ [s] }

def output (r : Rendered) : Wide := r.pieces.flatten

def set (r : Rendered) (outermost : Bool) (vars : Variables) : Rendered :=
  let shared := if outermost then vars ++ r.scope.shared else r.scope.shared
  { r with scope := { r.scope with shared, vars := vars ++ r.scope.vars } }

def restore (r before : Rendered) : Rendered :=
  { r with scope := { r.scope with vars := before.scope.vars } }

end Rendered

mutual

/-- `outermost` says that a node stands outside of all loops and blocks. -/
def renderNode (s : Surroundings) (outermost : Bool) (r : Rendered) : Node → Except Fault Rendered
  | .text t => .ok (if r.parent.isSome then r else r.add (.ofString t))
  | .print e =>
    if r.parent.isSome then .ok r
    else do return r.add (← (← eval s r.scope e).printed)
  | .branch condition yes no => do
    if ← (← eval s r.scope condition).truth then renderNodes s outermost r yes
    else renderNodes s outermost r no
  | .loop target source condition body otherwise => do
    let values ← (← eval s r.scope source).items
    let bindings := values.map (bindRound s r.scope target condition)
    let length := if condition.isSome then countRounds bindings else .ok values.length
    let hasState := mentionedIn "loop" body
    let (after, count) ← (withRest bindings).foldlM (fun (r', index) (binding, rest) => do
      match ← binding with
      | none => return (r', index)
      | some bound =>
        let last := if condition.isSome then (anyRound rest).map (!·) else .ok rest.isEmpty
        let state := if hasState then [("loop", Value.loopState index length last)] else []
        let inner ← renderNodes s false (r'.set false (bound ++ state)) body
        return (inner.restore r, index + 1)) (r, 0)
    if count = 0 then return (← renderNodes s false r otherwise).restore r
    else return after
  | .assign target e => do
    let v ← match target with
      | .part _ _ => throw .partOfNothing
      | _ => eval s r.scope e
    return r.set outermost (← target.bind v)
  | .capture target body => do
    let inner ← renderNodes s false { r with pieces := [], parent := none } body
    return r.set outermost (← target.bind (.text inner.output))
  | .include e ignoreMissing withVariables => do
    let wanted ← eval s r.scope e
    match selectTemplate s.load wanted with
    | .ok (name, t) =>
      return r.add (← s.enterTemplate (if withVariables then r.scope.vars else []) name t)
    | .error fault => if ignoreMissing && fault.isAbsence then return r else throw fault
  | .extends e => do
    if r.parent.isSome then throw .extendedTwice
    let (name, t) ← findTemplate s.load (← eval s r.scope e)
    let blocks := addBlocks r.scope.blocks name t
    return { r with scope := { r.scope with blocks }, parent := some (name, t) }
  | .block name body =>
    if outermost && r.parent.isSome then .ok r
    else do
      let bodies := (r.scope.blocks.lookup name).getD [⟨s.name, body⟩]
      return r.add (← s.enterBlock r.scope.blocks r.scope.shared name bodies)

def renderNodes (s : Surroundings) (outermost : Bool) (r : Rendered) :
  List Node → Except Fault Rendered
  | [] => .ok r
  | n :: rest => do renderNodes s outermost (← renderNode s outermost r n) rest

end

mutual

/-- Renders a template whose blocks are given, then what it extends. `depth` bounds how deep
templates use each other. -/
def renderTemplate (load : Loader) :
    Nat → Blocks → Variables → String → Template → Except Fault Wide
  | 0, _, _, _, _ => .error .tooDeep
  | depth + 1, blocks, vars, name, template => do
    let s : Surroundings :=
      { name
        load
        enterTemplate :=
          fun vars name t => renderTemplate load depth (addBlocks [] name t) vars name t
        enterBlock := renderBlock load depth }
    let r ← renderNodes s true (.start blocks vars vars) template
    match r.parent with
    | none => return r.output
    | some (name, parent) =>
      return r.output ++ (← renderTemplate load depth r.scope.blocks r.scope.shared name parent)

def renderBlock (load : Loader) :
    Nat → Blocks → Variables → String → List BlockBody → Except Fault Wide
  | 0, _, _, _, _ => .error .tooDeep
  | _ + 1, _, _, name, [] => .error (.undefined (.parentBlock name))
  | depth + 1, blocks, vars, name, body :: others => do
    let s : Surroundings :=
      { name := body.template
        load
        enterTemplate :=
          fun vars name t => renderTemplate load depth (addBlocks [] name t) vars name t
        enterBlock := renderBlock load depth }
    let super := if others.isEmpty then Value.undefined (.parentBlock name) else
      .parentBlock name others
    let r ← renderNodes s false (.start blocks vars (("super", super) :: vars)) body.nodes
    return r.output

end

def maxDepth : Nat := 100

def render (load : Loader) (vars : Variables) (name : String) (template : Template) :
    Except Fault Wide :=
  renderTemplate load maxDepth (addBlocks [] name template) vars name template

end OperationHooks.Template
