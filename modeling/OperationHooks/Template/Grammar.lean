import OperationHooks.Template.Lexer
/-!
From pieces to templates. Expressions are read from the loosest operator to the tightest; the reader
for what stands in brackets is handed down, and the number of tokens bounds how deep they nest.
-/
set_option autoImplicit false

namespace OperationHooks.Template

abbrev Reader := StateT Tokens Option

namespace Reader

def next? : Reader (Option Token) := return (← get).head?.map (·.1)

/-- The token behind the next one. -/
def second? : Reader (Option Token) := return (← get)[1]?.map (·.1)

def line : Reader Nat := return ((← get).head?.map (·.2)).getD 0

def drop : Reader Unit := modify (·.drop 1)

def take? (t : Token) : Reader Bool := do
  if (← next?) == some t then drop; return true
  else return false

def operator? (s : String) : Reader Bool := take? (.operator s)
def word? (s : String) : Reader Bool := take? (.name s)

def words? (s t : String) : Reader Bool := do
  if (← next?) == some (.name s) && (← second?) == some (.name t) then drop; drop; return true
  else return false

def operator (s : String) : Reader Unit := do
  unless ← operator? s do failure

def word (s : String) : Reader Unit := do
  unless ← word? s do failure

def name : Reader String := do
  match ← next? with
  | some (.name s) => drop; return s
  | _ => failure

/-- A loop that runs while tokens are left. -/
def repeated {α : Type} (step : α → Reader (Option α)) : Nat → α → Reader α
  | 0, x => return x
  | fuel + 1, x => do
    match ← step x with
    | some y => repeated step fuel y
    | none => return x

def loop {α : Type} (x : α) (step : α → Reader (Option α)) : Reader α := do
  repeated step ((← get).length + 1) x

def itemsUpTo {α : Type} (closing : String) (item : Reader α) : Nat → Reader (List α)
  | 0 => failure
  | fuel + 1 => do
    if ← operator? closing then return []
    let x ← item
    if ← operator? closing then return [x]
    operator ","
    return x :: (← itemsUpTo closing item fuel)

def items {α : Type} (closing : String) (item : Reader α) : Reader (List α) := do
  itemsUpTo closing item ((← get).length + 1)

def tupleItems (item : Reader Expr) (ends : Option Token → Bool) : Nat → Reader (List Expr × Bool)
  | 0 => failure
  | fuel + 1 => do
    if ends (← next?) then return ([], false)
    let e ← item
    if ← operator? "," then return (e :: (← tupleItems item ends fuel).1, true)
    else return ([e], false)

/-- The end of a tag and a closing bracket end a tuple, and so does the word given. -/
def endsTuple (stop : Option String) : Option Token → Bool
  | none => true
  | some (.operator op) => op == ")"
  | some (.name s) => stop == some s
  | _ => false

/-- One expression, or a tuple if there is a comma. Only brackets can hold an empty one. -/
def tuple (item : Reader Expr) (stop : Option String) (inBrackets : Bool) : Reader Expr := do
  match ← tupleItems item (endsTuple stop) ((← get).length + 1) with
  | ([], _) => if inBrackets then return .tuple [] else failure
  | ([e], false) => return e
  | (es, _) => return .tuple es

def argument (expr : Reader Expr) : Reader (Option String × Expr) := do
  match ← next?, ← second? with
  | some (.name key), some (.operator "=") =>
    drop
    drop
    return (some key, ← expr)
  | _, _ => return (none, ← expr)

/-- An argument without a name cannot follow one with a name. -/
def wellOrdered (args : List (Option String × Expr)) : Bool :=
  (args.dropWhile (·.1.isNone)).all (·.1.isSome)

def arguments (expr : Reader Expr) : Reader (List (Option String × Expr)) := do
  let args ← items ")" (argument expr)
  if wellOrdered args then return args else failure

def constant? : String → Option Literal
  | "true" | "True" => some (.boolean true)
  | "false" | "False" => some (.boolean false)
  | "none" | "None" => some .nothing
  | _ => none

/-- Strings that follow each other are one. -/
def joinedText (first : Text.Wide) : Reader Expr := do
  let text ← loop first fun s => do
    match ← next? with
    | some (.text t) => drop; return some (s ++ t)
    | _ => return none
  return .literal (.text text)

def primary (expr : Reader Expr) : Reader Expr := do
  match ← next? with
  | some (.name s) =>
    drop
    match constant? s with
    | some l => return .literal l
    | none => return .variable s
  | some (.text s) => drop; joinedText s
  | some (.integer n) => drop; return .literal (.integer n)
  | some (.real x) => drop; return .literal (.real x)
  | some (.operator "(") =>
    drop
    let e ← tuple expr none true
    operator ")"
    return e
  | some (.operator "[") => drop; return .list (← items "]" expr)
  | _ => failure

def slicePart (expr : Reader Expr) : Reader (Option Expr) := do
  match ← next? with
  | some (.operator ":") | some (.operator "]") => return none
  | _ => return some (← expr)

/-- The index behind an opening bracket, up to the closing one; several make a tuple. -/
def subscript (expr : Reader Expr) (e : Expr) : Reader Expr := do
  if ← operator? "]" then return .item e (.tuple [])
  let start ← slicePart expr
  if ← operator? ":" then
    let stop ← slicePart expr
    let step ← if ← operator? ":" then slicePart expr else pure none
    operator "]"
    return .slice e start stop step
  let some first := start | failure
  let others ← loop [] fun found => do
    if ← operator? "," then return some (found ++ [← expr]) else return none
  operator "]"
  return .item e (if others.isEmpty then first else .tuple (first :: others))

def member (e : Expr) : Reader Expr := do
  match ← next? with
  | some (.name s) => drop; return .attribute e s
  | some (.integer n) => drop; return .item e (.literal (.integer n))
  | _ => failure

def applied (expr : Reader Expr) (e : Expr) : Reader (Option Expr) := do
  if ← operator? "." then return some (← member e)
  if ← operator? "[" then return some (← subscript expr e)
  if ← operator? "(" then return some (.call e (← arguments expr))
  return none

def operand (expr : Reader Expr) : Reader Expr := do loop (← primary expr) (applied expr)

def optionalArguments (expr : Reader Expr) : Reader (List (Option String × Expr)) := do
  if ← operator? "(" then arguments expr else return []

def dottedName : Reader String := do
  loop (← name) fun s => do
    if ← operator? "." then return some (s ++ "." ++ (← name)) else return none

def startsTestArgument : Option Token → Bool
  | some (.name s) => !(["else", "or", "and"].contains s)
  | some (.text _) | some (.integer _) | some (.real _) => true
  | some (.operator op) => op == "["
  | none => false

/-- The test behind `is`: its name, and an argument in brackets or without. Tests do not follow each
other. -/
def test (expr : Reader Expr) (e : Expr) : Reader Expr := do
  let negated ← word? "not"
  let testName ← dottedName
  let args ←
    if (← next?) == some (.operator "(") then optionalArguments expr
    else if (← next?) == some (.name "is") then failure
    else if startsTestArgument (← next?) then pure [(none, ← operand expr)]
    else pure []
  let result := Expr.test e testName args
  return if negated then .not result else result

def filterOrTest (expr : Reader Expr) (e : Expr) : Reader (Option Expr) := do
  if ← operator? "|" then
    let filterName ← dottedName
    return some (.filter e filterName (← optionalArguments expr))
  if ← word? "is" then return some (← test expr e)
  if ← operator? "(" then return some (.call e (← arguments expr))
  return none

def signs : Nat → Reader (List Bool)
  | 0 => return []
  | fuel + 1 => do
    if ← operator? "-" then return true :: (← signs fuel)
    if ← operator? "+" then return false :: (← signs fuel)
    return []

def signed (e : Expr) (negative : Bool) : Expr := if negative then .negate e else .plus e

/-- Filters apply to a signed operand as a whole. -/
def unary (expr : Reader Expr) : Reader Expr := do
  let found ← signs ((← get).length + 1)
  loop (found.reverse.foldl signed (← operand expr)) (filterOrTest expr)

def leftJoined (operand : Reader Expr) (ops : List (String × Arithmetic)) : Reader Expr := do
  loop (← operand) fun e => do
    match ← next? with
    | some (.operator s) =>
      match ops.lookup s with
      | some op => drop; return some (.arithmetic op e (← operand))
      | none => return none
    | _ => return none

def power (expr : Reader Expr) : Reader Expr := leftJoined (unary expr) [("**", .power)]

def product (expr : Reader Expr) : Reader Expr :=
  leftJoined (power expr)
    [("*", .mul), ("/", .divide), ("//", .floorDivide), ("%", .modulo)]

def concatenation (expr : Reader Expr) : Reader Expr := do
  let parts ← loop [← product expr] fun found => do
    if ← operator? "~" then return some (found ++ [← product expr]) else return none
  match parts with
  | [e] => return e
  | parts => return .concat parts

def sum (expr : Reader Expr) : Reader Expr :=
  leftJoined (concatenation expr) [("+", .add), ("-", .sub)]

def comparisons : List (String × Comparison) :=
  [("==", .equal), ("!=", .notEqual), ("<", .less), ("<=", .lessOrEqual), (">", .greater),
   (">=", .greaterOrEqual)]

def comparison? : Reader (Option Comparison) := do
  match ← next? with
  | some (.operator s) =>
    match comparisons.lookup s with
    | some op => drop; return some op
    | none => return none
  | _ =>
    if ← word? "in" then return some .isIn
    if ← words? "not" "in" then return some .notIn
    return none

def comparison (expr : Reader Expr) : Reader Expr := do
  let first ← sum expr
  let rest ← loop [] fun found => do
    match ← comparison? with
    | some op => return some ((op, ← sum expr) :: found)
    | none => return none
  return if rest.isEmpty then first else .compare first rest.reverse

def negations : Nat → Reader Nat
  | 0 => return 0
  | fuel + 1 => do
    if ← word? "not" then return (← negations fuel) + 1
    return 0

def negation (expr : Reader Expr) : Reader Expr := do
  let count ← negations ((← get).length + 1)
  let e ← comparison expr
  return (List.range count).foldl (fun e _ => .not e) e

def joinedBy (keyword : String) (operand : Reader Expr) (join : Expr → Expr → Expr) :
    Reader Expr := do
  loop (← operand) fun e => do
    if ← word? keyword then return some (join e (← operand)) else return none

def disjunction (expr : Reader Expr) : Reader Expr :=
  joinedBy "or" (joinedBy "and" (negation expr) .both) .either

def conditional (expr : Reader Expr) : Reader Expr := do
  let first ← line
  let (e, _) ← loop (← disjunction expr, first) fun (yes, start) => do
    if ← word? "if" then
      let condition ← disjunction expr
      let no ← if ← word? "else" then some <$> expr else pure none
      return some (.conditional start condition yes no, ← line)
    else return none
  return e

/-- An expression with brackets and alternatives at most `depth` deep. -/
def expression : Nat → Reader Expr
  | 0 => failure
  | depth + 1 => conditional (expression depth)

def anExpression : Reader Expr := do expression ((← get).length + 1)

def anAlternative : Reader Expr := do disjunction (expression ((← get).length + 1))

end Reader

def readAll {α : Type} (reader : Reader α) (tokens : Tokens) : Option α := do
  let (x, rest) ← reader.run tokens
  if rest.isEmpty then some x else none

mutual

def Expr.asTarget? : Expr → Option Target
  | .variable name => some (.name name)
  | .tuple items => (asTargets? items).map .several
  | _ => none

def asTargets? : List Expr → Option (List Target)
  | [] => some []
  | e :: rest => do return (← e.asTarget?) :: (← asTargets? rest)

end

namespace Reader

def targetUpTo (stop : Option String) : Reader Target := do
  let depth := (← get).length + 1
  match (← tuple (primary (expression depth)) stop false).asTarget? with
  | some target => return target
  | none => failure

def target : Reader Target := do
  if (← second?) == some (.operator ".") then
    let whole ← name
    drop
    return .part whole (← name)
  else targetUpTo none

end Reader

inductive Keyword where
  | ifThen (condition : Expr)
  | elseIf (condition : Expr)
  | otherwise
  | endIf
  | forEach (target : Target) (source : Expr) (condition : Option Expr)
  | endFor
  | assign (target : Target) (e : Expr)
  | capture (target : Target)
  | endSet
  | include (e : Expr) (ignoreMissing withVariables : Bool)
  | extends (e : Expr)
  | block (name : String)
  | endBlock (name : Option String)

namespace Reader

def startsBody (k : Keyword) : Reader Keyword := do
  discard (operator? ":")
  return k

/-- A loop's list is read without its condition, which stands behind it. -/
def forEach : Reader Keyword := do
  let found ← targetUpTo (some "in")
  word "in"
  let source ← tuple anAlternative (some "recursive") false
  let condition ← if ← word? "if" then some <$> anExpression else pure none
  startsBody (.forEach found source condition)

def assignment : Reader Keyword := do
  let found ← target
  if ← operator? "=" then return .assign found (← tuple anExpression none false)
  else startsBody (.capture found)

def inclusion : Reader Keyword := do
  let e ← anExpression
  let ignoring ← words? "ignore" "missing"
  if ← words? "without" "context" then return .include e ignoring false
  discard (words? "with" "context")
  return .include e ignoring true

def keyword : Reader Keyword := do
  match ← name with
  | "if" => startsBody (.ifThen (← tuple anAlternative none false))
  | "elif" => startsBody (.elseIf (← tuple anAlternative none false))
  | "else" => startsBody .otherwise
  | "endif" => return .endIf
  | "for" => forEach
  | "endfor" => return .endFor
  | "set" => assignment
  | "endset" => return .endSet
  | "include" => inclusion
  | "extends" => return .extends (← anExpression)
  | "block" => startsBody (.block (← name))
  | "endblock" =>
    match ← next? with
    | some (.name s) => drop; return .endBlock (some s)
    | _ => return .endBlock none
  | _ => failure

end Reader

def keyword? (tokens : Tokens) : Option Keyword := readAll Reader.keyword tokens

/-- The nodes up to a keyword that is not the start of a node, that keyword, and the rest. -/
structure Body where
  nodes : List Node
  stop : Option Keyword
  rest : List Piece

mutual

def bodyFrom : Nat → List Piece → Option Body
  | 0, _ => none
  | _ + 1, [] => some ⟨[], none, []⟩
  | fuel + 1, piece :: rest =>
    let andThen (node : Node) (behind : List Piece) : Option Body :=
      (bodyFrom fuel behind).map fun body => { body with nodes := node :: body.nodes }
    match piece with
    | .text cs => andThen (.text (String.ofList cs)) rest
    | .print tokens => do
      andThen (.print (← readAll (Reader.tuple Reader.anExpression none false) tokens)) rest
    | .statement tokens => do
      match ← keyword? tokens with
      | .ifThen condition =>
        let (node, behind) ← branchFrom fuel condition rest
        andThen node behind
      | .forEach target source condition =>
        let body ← bodyFrom fuel rest
        let (otherwise, stop, behind) ← match body.stop with
          | some .otherwise => (bodyFrom fuel body.rest).map fun b => (b.nodes, b.stop, b.rest)
          | stop => some ([], stop, body.rest)
        match stop with
        | some .endFor => andThen (.loop target source condition body.nodes otherwise) behind
        | _ => none
      | .assign target e => andThen (.assign target e) rest
      | .capture target =>
        let body ← bodyFrom fuel rest
        match body.stop with
        | some .endSet => andThen (.capture target body.nodes) body.rest
        | _ => none
      | .include e ignoring withVariables => andThen (.include e ignoring withVariables) rest
      | .extends e => andThen (.extends e) rest
      | .block name =>
        let body ← bodyFrom fuel rest
        match body.stop with
        | some (.endBlock label) =>
          if label.all (· == name) then andThen (.block name body.nodes) body.rest else none
        | _ => none
      | stop => some ⟨[], some stop, rest⟩

def branchFrom : Nat → Expr → List Piece → Option (Node × List Piece)
  | 0, _, _ => none
  | fuel + 1, condition, rest => do
    let yes ← bodyFrom fuel rest
    match yes.stop with
    | some .endIf => some (.branch condition yes.nodes [], yes.rest)
    | some .otherwise =>
      let no ← bodyFrom fuel yes.rest
      match no.stop with
      | some .endIf => some (.branch condition yes.nodes no.nodes, no.rest)
      | _ => none
    | some (.elseIf next) =>
      let (node, behind) ← branchFrom fuel next yes.rest
      some (.branch condition yes.nodes [node], behind)
    | _ => none

end

def nodes? (source : String) : Option (List Node) := do
  let found ← pieces source
  let body ← bodyFrom (2 * found.length + 2) found
  if body.stop.isSome then none else some body.nodes

end OperationHooks.Template
