import OperationHooks.GraphQL.Source
import OperationHooks.GraphQL.Name

set_option autoImplicit false

namespace OperationHooks.GraphQL

inductive SyntaxCause where
  | unexpectedCharacter (found : Char)
  | singleQuote
  | twoDots
  | missingWholePart (digits : List Char)
  | digitAfterZero (found : Char)
  | digitExpected (found : Option Char)
  | unterminatedString
  | badEscape (text : List Char)
  | badUnicodeEscape (text : List Char)
  | expected (wanted found : String)
  | unexpected (found : String)
  | variableInConstant (name : Name)
  | reservedEnumValue (found : String)
  | describedShorthand
  | misplacedDescription
  | tooDeep

structure SyntaxFault where
  position : Nat
  cause : SyntaxCause

structure SyntaxError where
  source : String
  fault : SyntaxFault

def upperHexDigit (n : Nat) : Char :=
  if n < 10 then Char.ofNat (48 + n) else Char.ofNat (55 + n)

def codePointDigits (n : Nat) : List Char :=
  let digit (k : Nat) := upperHexDigit (n / Nat.pow 16 k % 16)
  let high := if n < 0x10000 then [] else if n < 0x100000 then [digit 4] else [digit 5, digit 4]
  high ++ [digit 3, digit 2, digit 1, digit 0]

/-- How a message names the character at a place, or the end of the text. -/
def describeChar : Option Char → String
  | none => "<EOF>"
  | some c =>
    if c = '"' then "'\"'"
    else if 32 ≤ c.toNat && c.toNat ≤ 126 then String.ofList ['\'', c, '\'']
    else "U+" ++ String.ofList (codePointDigits c.toNat)

def SyntaxCause.message : SyntaxCause → String
  | .unexpectedCharacter c => s!"Unexpected character: {describeChar (some c)}."
  | .singleQuote =>
    "Unexpected single quote character ('), did you mean to use a double quote (\")?"
  | .twoDots => "Unexpected '..', did you mean '...'?"
  | .missingWholePart digits =>
    "Invalid number, expected digit before '.', did you mean '0." ++ String.ofList digits ++ "'?"
  | .digitAfterZero c =>
    s!"Invalid number, unexpected digit after 0: {describeChar (some c)}."
  | .digitExpected c => s!"Invalid number, expected digit but got: {describeChar c}."
  | .unterminatedString => "Unterminated string."
  | .badEscape text => s!"Invalid character escape sequence: '{String.ofList text}'."
  | .badUnicodeEscape text => s!"Invalid Unicode escape sequence: '{String.ofList text}'."
  | .expected wanted found => s!"Expected {wanted}, found {found}."
  | .unexpected found => s!"Unexpected {found}."
  | .variableInConstant name => s!"Unexpected variable '${name.text}' in constant value."
  | .reservedEnumValue found => s!"{found} is reserved and cannot be used for an enum value."
  | .describedShorthand =>
    "Unexpected description, descriptions are not supported on shorthand queries."
  | .misplacedDescription =>
    "Unexpected description, only GraphQL definitions support descriptions."
  | .tooDeep => "Document is nested too deeply. Parsing aborted."

def SyntaxError.message (e : SyntaxError) : String :=
  let source := e.source.toList
  let place := locate source e.fault.position
  s!"Syntax Error: {e.fault.cause.message}\n\nGraphQL request:{place.line}:{place.column}\n" ++
    excerpt source place

end OperationHooks.GraphQL
