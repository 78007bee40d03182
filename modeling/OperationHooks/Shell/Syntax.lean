set_option autoImplicit false

namespace OperationHooks.Shell

abbrev Octets := List Char

/-- What stands in for a parameter that is not set, or for one that is. -/
inductive Alternative where
  | standard
  | assigned
  | failure
  | other
  deriving DecidableEq

mutual

inductive Part where
  | text (cs : Octets) (quoted : Bool)
  | parameter (name : Octets) (use : Use) (quoted : Bool)
  | command (source : Octets) (line : Nat) (quoted : Bool)
  | arithmetic (parts : List Part) (quoted : Bool)

/-- How a parameter is used: its value, the length of it, a word instead of it, or its value without
what matches a pattern at one end. -/
inductive Use where
  | value
  | length
  | instead (kind : Alternative) (alsoEmpty : Bool) (word : List Part)
  | trimmed (atFront longest : Bool) (pattern : List Part)
  | malformed

end

abbrev Word := List Part

/-- The text of a word in which nothing is quoted or expanded. -/
def literal? : Word → Option Octets
  | [] => some []
  | .text cs false :: rest => (literal? rest).map (cs ++ ·)
  | _ => none

inductive Opening where
  | forReading
  | forWriting
  | forAppending
  deriving DecidableEq

inductive Redirection where
  | file (channel : Nat) (opening : Opening) (name : Word)
  | copy (channel : Nat) (source : Word)
  | here (channel : Nat) (body : Word)

inductive Command where
  | simple (line : Nat) (assignments : List (Octets × Word)) (words : List Word)
      (redirections : List Redirection)
  | pipe (commands : List Command)
  | negated (c : Command)
  | both (first second : Command)
  | either (first second : Command)
  | sequence (first second : Command)
  | background (c : Command)
  | redirected (line : Nat) (c : Command) (redirections : List Redirection)
  | subshell (c : Command)
  | choice (condition yes : Command) (no : Option Command)
  | loop (expected : Bool) (condition body : Command)
  | forEach (line : Nat) (name : Octets) (words : Option (List Word)) (body : Command)
  | cases (line : Nat) (subject : Word) (items : List (List Word × Option Command))
  | function (name : Octets) (body : Command)

/-- Why a text is no script, and the line where this shows. -/
structure SyntaxFault where
  line : Nat
  message : String

end OperationHooks.Shell
