set_option autoImplicit false

namespace OperationHooks.Yaml

/-- What ends the reading of a text: its form, a code that is no character, or too many collections
inside each other. -/
inductive TextFault where
  | malformed
  | noSuchCharacter
  | codeTooLarge
  | tooDeep
  deriving DecidableEq, Repr

inductive Directive where
  | version (major : Nat)
  | handle (name target : String)
  | other
  deriving DecidableEq

inductive Token where
  | directive (d : Directive)
  | documentStart
  | documentEnd
  | blockSequenceStart
  | blockMappingStart
  | blockEnd
  | flowSequenceStart
  | flowSequenceEnd
  | flowMappingStart
  | flowMappingEnd
  | blockEntry
  | flowEntry
  | key
  | value
  | alias (name : String)
  | anchor (name : String)
  | tag (handle : Option String) (suffix : String)
  | scalar (text : String) (plain : Bool)
  | brokenScalar
  | unreadable (fault : TextFault)
  deriving DecidableEq

end OperationHooks.Yaml
