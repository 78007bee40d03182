import OperationHooks.GraphQL.Lexer
import OperationHooks.GraphQL.Document
/-!
The grammar of documents over a token stream. A token counts as read as soon as the one before it is
consumed, so a fault of the lexer wins over a grammar fault behind it. Nesting is limited, and the
limit is what the recursion runs on.
-/
set_option autoImplicit false

namespace OperationHooks.GraphQL

abbrev Parser := StateT Tokens (Except SyntaxFault)

namespace Parser

def failAt {α : Type} (position : Nat) (cause : SyntaxCause) : Parser α :=
  throw ⟨position, cause⟩

def position : Parser Nat := return (← get).position

def lexeme? : Parser (Option Lexeme) := do
  match ← get with
  | .next _ l _ => return some l
  | _ => return none

def describe : Option Lexeme → String
  | some l => l.describe
  | none => "<EOF>"

def fail {α : Type} (cause : SyntaxCause) : Parser α := do failAt (← position) cause

def unexpected {α : Type} : Parser α := do fail (.unexpected (describe (← lexeme?)))

def expected {α : Type} (wanted : String) : Parser α := do
  fail (.expected wanted (describe (← lexeme?)))

/-- Goes on to the tokens behind the current one, which must exist. -/
def enter : Tokens → Parser Unit
  | .fails fault => throw fault
  | tokens => set tokens

def advance : Parser Unit := do
  match ← get with
  | .next _ _ rest => enter rest
  | _ => return

def at? (p : Punctuator) : Parser Bool := return (← lexeme?) == some (.punctuator p)

def take? (p : Punctuator) : Parser Bool := do
  if ← at? p then advance; return true
  else return false

def punctuator (p : Punctuator) : Parser Unit := do
  unless ← take? p do expected s!"'{p.text}'"

def keywordIs (word : String) : Option Lexeme → Bool
  | some (.name n) => n.text == word
  | _ => false

def takeKeyword? (word : String) : Parser Bool := do
  if keywordIs word (← lexeme?) then advance; return true
  else return false

def keyword (word : String) : Parser Unit := do
  unless ← takeKeyword? word do expected s!"'{word}'"

def name : Parser Name := do
  match ← lexeme? with
  | some (.name n) => advance; return n
  | _ => expected "Name"

/-- Items up to a closing token. Each item takes a token, so the stream bounds their number. -/
def upTo {α : Type} (close : Punctuator) (item : Parser α) : Nat → Parser (List α)
  | 0 => unexpected
  | fuel + 1 => do
    if ← take? close then return []
    let x ← item
    return x :: (← upTo close item fuel)

def itemsUpTo {α : Type} (close : Punctuator) (item : Parser α) : Parser (List α) := do
  upTo close item ((← get).size + 1)

def many {α : Type} (opening : Punctuator) (item : Parser α) (close : Punctuator) :
    Parser (List α) := do
  punctuator opening
  let x ← item
  return x :: (← itemsUpTo close item)

def optionalMany {α : Type} (opening : Punctuator) (item : Parser α) (close : Punctuator) :
    Parser (List α) := do
  if ← at? opening then many opening item close else return []

def separatedFrom {α : Type} (separator : Punctuator) (item : Parser α) : Nat → Parser (List α)
  | 0 => unexpected
  | fuel + 1 => do
    let x ← item
    if ← take? separator then return x :: (← separatedFrom separator item fuel)
    else return [x]

def separated {α : Type} (separator : Punctuator) (item : Parser α) : Parser (List α) := do
  let _ ← take? separator
  separatedFrom separator item ((← get).size + 1)

def optional {α : Type} (p : Punctuator) (item : Parser α) : Parser (Option α) := do
  if ← take? p then return some (← item) else return none

def maxNesting : Nat := 200

def variableValue : Bool → Parser Unit
  | false => do punctuator .dollar; let _ ← name
  | true => do
    let start ← position
    punctuator .dollar
    match ← lexeme? with
    | some (.name n) => failAt start (.variableInConstant n)
    | _ => failAt start (.unexpected "'$'")

/-- One value; `inner` reads the values inside a list or an object, and is missing at the limit. -/
def valueWith (constant : Bool) (inner : Option (Parser Unit)) : Parser Unit := do
  match ← lexeme? with
  | some (.punctuator .bracketL) =>
    match inner with
    | none => fail .tooDeep
    | some value => advance; let _ ← itemsUpTo .bracketR value
  | some (.punctuator .braceL) =>
    match inner with
    | none => fail .tooDeep
    | some value =>
      advance
      let _ ← itemsUpTo .braceR do
        let _ ← name
        punctuator .colon
        value
  | some (.punctuator .dollar) => variableValue constant
  | some (.punctuator _) | none => unexpected
  | some _ => advance

def value (constant : Bool) : Nat → Parser Unit
  | 0 => valueWith constant none
  | nesting + 1 => valueWith constant (some (value constant nesting))

def argument (constant : Bool) (nesting : Nat) : Parser Unit := do
  let _ ← name
  punctuator .colon
  value constant nesting

def arguments (constant : Bool) (nesting : Nat) : Parser Unit := do
  let _ ← optionalMany .parenL (argument constant nesting) .parenR

def directivesFrom (constant : Bool) (nesting : Nat) : Nat → Parser Nat
  | 0 => unexpected
  | fuel + 1 => do
    if ← take? .at then
      let _ ← name
      arguments constant nesting
      return (← directivesFrom constant nesting fuel) + 1
    else return 0

def directives (constant : Bool) (nesting : Nat) : Parser Nat := do
  directivesFrom constant nesting ((← get).size + 1)

def constantDirectives : Parser Nat := directives true maxNesting

def namedOrList (inner : Parser Unit) : Parser Unit := do
  if ← take? .bracketL then
    inner
    punctuator .bracketR
  else
    let _ ← name
  let _ ← take? .bang

/-- A type; `nesting` lists may still be opened. -/
def typeReference : Nat → Parser Unit
  | 0 => namedOrList (fail .tooDeep)
  | nesting + 1 => namedOrList (typeReference nesting)

def description : Parser Unit := do
  match ← lexeme? with
  | some l => if l.isString then advance
  | none => return

def fragmentName : Parser Name := do
  match ← lexeme? with
  | some l => if l.value == some "on".toList then unexpected else name
  | none => name

/-- What an ellipsis introduces: a spread, or selections under a condition or none. -/
def fragmentSelection (selections : Parser (List Selection)) (nesting : Nat) :
    Parser Selection := do
  punctuator .spread
  if ← takeKeyword? "on" then
    let condition ← name
    let _ ← directives false nesting
    return .inline (some condition) (← selections)
  match ← lexeme? with
  | some (.name _) =>
    let spread ← fragmentName
    let _ ← directives false nesting
    return .spread spread
  | _ =>
    let _ ← directives false nesting
    return .inline none (← selections)

def fieldSelection (selections : Parser (List Selection)) (nesting : Nat) : Parser Selection := do
  let first ← name
  let second ← optional .colon name
  arguments false nesting
  let _ ← directives false nesting
  let inner ← if ← at? .braceL then selections else pure []
  match second with
  | some field => return .field (some first) field inner
  | none => return .field none first inner

/-- A selection set, which may be empty; `nesting` more levels may be opened. -/
def selectionSet : Nat → Parser (List Selection)
  | 0 => fail .tooDeep
  | nesting + 1 => do
    punctuator .braceL
    itemsUpTo .braceR do
      if ← at? .spread then fragmentSelection (selectionSet nesting) nesting
      else fieldSelection (selectionSet nesting) nesting

def variableDefinition : Parser Name := do
  description
  punctuator .dollar
  let variableName ← name
  punctuator .colon
  typeReference maxNesting
  let _ ← optional .equals (value true maxNesting)
  let _ ← constantDirectives
  return variableName

def operationType : Parser OperationType := do
  let start ← position
  let n ← name
  if n.text == "query" then return .query
  else if n.text == "mutation" then return .mutation
  else if n.text == "subscription" then return .subscription
  else failAt start (.unexpected (Lexeme.name n).describe)

def shorthand : Parser Operation := do
  return ⟨.query, none, [], ← selectionSet maxNesting⟩

def operation : Parser Operation := do
  description
  let type ← operationType
  let operationName ← match ← lexeme? with
    | some (.name _) => some <$> name
    | _ => pure none
  let variableNames ← optionalMany .parenL variableDefinition .parenR
  let _ ← directives false maxNesting
  return ⟨type, operationName, variableNames, ← selectionSet maxNesting⟩

def fragment : Parser Definition := do
  description
  keyword "fragment"
  let fragment ← fragmentName
  keyword "on"
  let condition ← name
  let _ ← directives false maxNesting
  return .fragment fragment condition (← selectionSet maxNesting)

def operationTypeDefinition : Parser Unit := do
  let _ ← operationType
  punctuator .colon
  let _ ← name

def inputValue : Parser Unit := do
  description
  let _ ← name
  punctuator .colon
  typeReference maxNesting
  let _ ← optional .equals (value true maxNesting)
  let _ ← constantDirectives

def argumentDefinitions : Parser Unit := do
  let _ ← optionalMany .parenL inputValue .parenR

def fieldDefinition : Parser Unit := do
  description
  let _ ← name
  argumentDefinitions
  punctuator .colon
  typeReference maxNesting
  let _ ← constantDirectives

def enumValue : Parser Unit := do
  description
  match ← lexeme? with
  | some l =>
    if l.value == some "true".toList || l.value == some "false".toList ||
        l.value == some "null".toList then
      fail (.reservedEnumValue l.describe)
  | none => pure ()
  let _ ← name
  let _ ← constantDirectives

def interfaces : Parser Nat := do
  if ← takeKeyword? "implements" then return (← separated .amp name).length
  else return 0

def fields : Parser Nat := return (← optionalMany .braceL fieldDefinition .braceR).length
def enumValues : Parser Nat := return (← optionalMany .braceL enumValue .braceR).length
def inputFields : Parser Nat := return (← optionalMany .braceL inputValue .braceR).length
def operationTypes : Parser Nat :=
  return (← optionalMany .braceL operationTypeDefinition .braceR).length

def members : Parser Nat := do
  if ← take? .equals then return (← separated .pipe name).length
  else return 0

def directiveLocations : List String :=
  ["QUERY", "MUTATION", "SUBSCRIPTION", "FIELD", "FRAGMENT_DEFINITION", "FRAGMENT_SPREAD",
   "INLINE_FRAGMENT", "VARIABLE_DEFINITION", "SCHEMA", "SCALAR", "OBJECT", "FIELD_DEFINITION",
   "ARGUMENT_DEFINITION", "INTERFACE", "UNION", "ENUM", "ENUM_VALUE", "INPUT_OBJECT",
   "INPUT_FIELD_DEFINITION", "DIRECTIVE_DEFINITION"]

def directiveLocation : Parser Unit := do
  let start ← position
  let n ← name
  unless directiveLocations.contains n.text do
    failAt start (.unexpected (Lexeme.name n).describe)

def directiveDefinition : Parser Unit := do
  punctuator .at
  let _ ← name
  argumentDefinitions
  let _ ← constantDirectives
  let _ ← takeKeyword? "repeatable"
  keyword "on"
  let _ ← separated .pipe directiveLocation

def unit (p : Parser Nat) : Parser Unit := do let _ ← p

/-- What follows the keyword of a definition. -/
def typeSystemBody (word : String) : Option (Parser Unit) :=
  match word with
  | "schema" => some do
    unit constantDirectives
    let _ ← many .braceL operationTypeDefinition .braceR
  | "scalar" => some do
    let _ ← name
    unit constantDirectives
  | "type" | "interface" => some do
    let _ ← name
    unit interfaces
    unit constantDirectives
    unit fields
  | "union" => some do
    let _ ← name
    unit constantDirectives
    unit members
  | "enum" => some do
    let _ ← name
    unit constantDirectives
    unit enumValues
  | "input" => some do
    let _ ← name
    unit constantDirectives
    unit inputFields
  | "directive" => some directiveDefinition
  | _ => none

def extensionParts (word : String) : Option (Parser Nat) :=
  match word with
  | "schema" => some do return (← constantDirectives) + (← operationTypes)
  | "scalar" => some do
    let _ ← name
    constantDirectives
  | "type" | "interface" => some do
    let _ ← name
    return (← interfaces) + (← constantDirectives) + (← fields)
  | "union" => some do
    let _ ← name
    return (← constantDirectives) + (← members)
  | "enum" => some do
    let _ ← name
    return (← constantDirectives) + (← enumValues)
  | "input" => some do
    let _ ← name
    return (← constantDirectives) + (← inputFields)
  | "directive" => some do
    punctuator .at
    let _ ← name
    constantDirectives
  | _ => none

/-- The token behind the current one, which must exist. -/
def lookahead : Parser Tokens := do
  match ← get with
  | .next _ _ (.fails fault) => throw fault
  | .next _ _ rest => return rest
  | tokens => return tokens

/-- A fault at a token that is not the current one. -/
def unexpectedAhead {α : Type} (ahead : Tokens) : Parser α :=
  match ahead with
  | .next p l _ => failAt p (.unexpected l.describe)
  | tokens => failAt tokens.position (.unexpected "<EOF>")

def wordAhead : Tokens → Option String
  | .next _ (.name n) _ => some n.text
  | _ => none

def typeSystemExtension : Parser Definition := do
  let ahead ← lookahead
  match (wordAhead ahead).bind extensionParts with
  | none => unexpectedAhead ahead
  | some parts =>
    advance
    advance
    if (← parts) = 0 then unexpected
    return .typeSystem

def isOperationWord (word : String) : Bool :=
  word == "query" || word == "mutation" || word == "subscription"

def startsDescribed (tokens : Tokens) : Bool :=
  match tokens with
  | .next _ l _ => l.isString
  | _ => false

/-- A definition whose keyword is at the front of `ahead`. -/
def keywordDefinition (described : Bool) (ahead : Tokens) : Parser Definition := do
  match wordAhead ahead with
  | none => unexpectedAhead ahead
  | some word =>
    match typeSystemBody word with
    | some body =>
      description
      advance
      body
      return .typeSystem
    | none =>
      if isOperationWord word then return .operation (← operation)
      else if word == "fragment" then fragment
      else if described then fail .misplacedDescription
      else if word == "extend" then typeSystemExtension
      else unexpectedAhead ahead

def definition : Parser Definition := do
  if ← at? .braceL then return .operation (← shorthand)
  let described := startsDescribed (← get)
  let ahead ← if described then lookahead else get
  match ahead with
  | .next _ (.punctuator .braceL) _ => fail .describedShorthand
  | _ => keywordDefinition described ahead

def definitionsFrom : Nat → Parser (List Definition)
  | 0 => unexpected
  | fuel + 1 => do
    match ← get with
    | .ends _ => return []
    | _ =>
      let d ← definition
      return d :: (← definitionsFrom fuel)

def document : Parser Document := do
  let first ← definition
  let rest ← definitionsFrom ((← get).size + 1)
  return ⟨first, rest⟩

end Parser

/-- Reads a document, or says where and why the text is none. -/
def parse (source : String) : Except SyntaxError Document :=
  match (do Parser.enter (tokens source.toList); Parser.document).run (.ends 0) with
  | .ok (document, _) => .ok document
  | .error fault => .error ⟨source, fault⟩

end OperationHooks.GraphQL
