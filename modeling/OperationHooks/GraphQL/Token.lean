import OperationHooks.GraphQL.SyntaxError

set_option autoImplicit false

namespace OperationHooks.GraphQL

inductive Punctuator where
  | bang | dollar | amp | parenL | parenR | spread | colon | equals | at
  | bracketL | bracketR | braceL | pipe | braceR
  deriving DecidableEq, Repr

def Punctuator.text : Punctuator → String
  | .bang => "!" | .dollar => "$" | .amp => "&" | .parenL => "(" | .parenR => ")"
  | .spread => "..." | .colon => ":" | .equals => "=" | .at => "@"
  | .bracketL => "[" | .bracketR => "]" | .braceL => "\x7b" | .pipe => "|" | .braceR => "\x7d"

def Punctuator.ofChar? : Char → Option Punctuator
  | '!' => some .bang | '$' => some .dollar | '&' => some .amp | '(' => some .parenL
  | ')' => some .parenR | ':' => some .colon | '=' => some .equals | '@' => some .at
  | '[' => some .bracketL | ']' => some .bracketR | '{' => some .braceL | '|' => some .pipe
  | '}' => some .braceR
  | _ => none

/-- Strings hold their value, with escapes resolved. -/
inductive Lexeme where
  | punctuator (p : Punctuator)
  | name (n : Name)
  | int (digits : List Char)
  | float (digits : List Char)
  | string (value : List Char)
  | block (value : List Char)
  deriving DecidableEq

def Lexeme.describe : Lexeme → String
  | .punctuator p => s!"'{p.text}'"
  | .name n => s!"Name '{n.text}'"
  | .int digits => s!"Int '{String.ofList digits}'"
  | .float digits => s!"Float '{String.ofList digits}'"
  | .string value => s!"String '{String.ofList value}'"
  | .block value => s!"BlockString '{String.ofList value}'"

def Lexeme.isString : Lexeme → Bool
  | .string _ | .block _ => true
  | _ => false

/-- The text a keyword or a reserved word is compared with. -/
def Lexeme.value : Lexeme → Option (List Char)
  | .punctuator _ => none
  | .name n => some n.chars
  | .int v | .float v | .string v | .block v => some v

inductive Tokens where
  | ends (position : Nat)
  | fails (fault : SyntaxFault)
  | next (position : Nat) (lexeme : Lexeme) (rest : Tokens)

def Tokens.size : Tokens → Nat
  | .ends _ | .fails _ => 0
  | .next _ _ rest => rest.size + 1

def Tokens.position : Tokens → Nat
  | .ends p | .next p _ _ => p
  | .fails f => f.position

end OperationHooks.GraphQL
