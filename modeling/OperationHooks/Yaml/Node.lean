import OperationHooks.Yaml.Lexer
import OperationHooks.Yaml.Resolution
/-!
From tokens to the nodes of the one document a text holds. Collections name their parts by number,
so an alias is no more than the number of its node, even inside the collection it stands for.
-/
set_option autoImplicit false

namespace OperationHooks.Yaml

inductive Node where
  | scalar (tag : Tag) (text : String)
  | brokenScalar (tag : Tag)
  | sequence (tag : Tag) (items : List Nat)
  | mapping (tag : Tag) (entries : List (Nat × Nat))

instance : Inhabited Node := ⟨.scalar .null ""⟩

def Node.tag : Node → Tag
  | .scalar tag _ | .brokenScalar tag | .sequence tag _ | .mapping tag _ => tag

structure Document where
  nodes : Array Node
  root : Nat

/-- What stands in front of a node: an anchor and a written tag. -/
structure Properties where
  anchor : Option String
  tag : Option String

structure Composition where
  tokens : List Token
  nodes : Array Node
  anchors : List (String × Nat)

abbrev Composer := StateT Composition (Except TextFault)

namespace Composer

def malformed {α : Type} : Composer α := throw .malformed

def next? : Composer (Option Token) := do
  match (← get).tokens.head? with
  | some (.unreadable fault) => throw fault
  | t => return t

def drop : Composer Unit := modify fun s => { s with tokens := s.tokens.drop 1 }

def take? (t : Token) : Composer Bool := do
  if (← next?) == some t then drop; return true
  else return false

def expect (t : Token) : Composer Unit := do
  unless ← take? t do malformed

def nextIn (ts : List Token) : Composer Bool := return (← next?).any ts.contains

def add (n : Node) : Composer Nat :=
  modifyGet fun s => (s.nodes.size, { s with nodes := s.nodes.push n })

def addEmpty : Composer Nat := add (.scalar .null "")

def register (anchor : Option String) (number : Nat) : Composer Unit :=
  match anchor with
  | none => pure ()
  | some name => modify fun s => { s with anchors := (name, number) :: s.anchors }

def addNamed (anchor : Option String) (n : Node) : Composer Nat := do
  let number ← add n
  register anchor number
  return number

abbrev Handles := List (String × String)

/-- What is known around a node: the handles of tags, and how many more calls can be open at a time.
-/
structure Context where
  handles : Handles
  room : Nat

def callsPerCollection : Nat := 2

def Context.inner (c : Context) : Context := { c with room := c.room - callsPerCollection }

/-- Reads what is in a collection, if there is room for it. -/
def Context.within {α : Type} (c : Context) (read : Context → Composer α) : Composer α :=
  if c.room < callsPerCollection then throw .tooDeep else read c.inner

def defaultHandles : Handles := [("!", "!"), ("!!", tagSpace)]

def writtenTag (handles : Handles) (handle : Option String) (suffix : String) : Composer String :=
  match handle with
  | none => pure suffix
  | some h =>
    match handles.lookup h with
    | some target => pure (target ++ suffix)
    | none => malformed

def anchor? : Composer (Option String) := do
  match ← next? with
  | some (.anchor name) => drop; return some name
  | _ => return none

def tag? (handles : Handles) : Composer (Option String) := do
  match ← next? with
  | some (.tag handle suffix) => drop; return some (← writtenTag handles handle suffix)
  | _ => return none

def properties (handles : Handles) : Composer Properties := do
  let first ← anchor?
  let tag ← tag? handles
  let anchor ← if first.isSome then pure first else anchor?
  if let some name := anchor then
    if ((← get).anchors.lookup name).isSome then malformed
  return ⟨anchor, tag⟩

def properTag (p : Properties) : Option Tag :=
  match p.tag with
  | none | some "!" => none
  | some t => some (.ofString t)

def scalarTag (p : Properties) (text : String) (plain : Bool) : Tag :=
  match properTag p with
  | some t => t
  | none => if plain || p.tag.isSome then resolve text else .str

/-- Gives a collection its number, and then reads what is in it. -/
def unopened (p : Properties) (read : Composer Node) : Composer Nat := do
  let number ← addNamed p.anchor default
  let n ← read
  modify fun s => { s with nodes := s.nodes.setIfInBounds number n }
  return number

/-- Like `unopened`, for a collection that has a start token of its own. -/
def collection (p : Properties) (read : Composer Node) : Composer Nat := unopened p (drop *> read)

def withoutContent (p : Properties) : Composer Nat := do
  if p.anchor.isNone && p.tag.isNone then malformed
  addNamed p.anchor (.scalar (scalarTag p "" true) "")

mutual

/-- One node. `block` allows block collections, `indentless` a sequence at the level of its key. -/
def node (c : Context) (block indentless : Bool) : Nat → Composer Nat
  | 0 => malformed
  | fuel + 1 => do
    if let some (.alias name) ← next? then
      drop
      match (← get).anchors.lookup name with
      | some number => return number
      | none => malformed
    else
      let p ← properties c.handles
      let sequence (items : List Nat) := Node.sequence ((properTag p).getD .seq) items
      let mapping (entries : List (Nat × Nat)) := Node.mapping ((properTag p).getD .map) entries
      match ← next? with
      | some .blockEntry =>
        if indentless then
          unopened p (c.within fun c => do return sequence (← indentlessItems c fuel))
        else withoutContent p
      | some (.scalar text plain) =>
        drop
        addNamed p.anchor (.scalar (scalarTag p text plain) text)
      | some .brokenScalar =>
        drop
        addNamed p.anchor (.brokenScalar ((properTag p).getD .str))
      | some .flowSequenceStart =>
        collection p (c.within fun c => do return sequence (← flowItems c true fuel))
      | some .flowMappingStart =>
        collection p (c.within fun c => do return mapping (← flowEntries c true fuel))
      | some .blockSequenceStart =>
        if block then collection p (c.within fun c => do return sequence (← blockItems c fuel))
        else withoutContent p
      | some .blockMappingStart =>
        if block then collection p (c.within fun c => do return mapping (← blockEntries c fuel))
        else withoutContent p
      | _ => withoutContent p

/-- A node, or an empty one if a token of `ends` follows. -/
def nodeUnless (c : Context) (ends : List Token) (block indentless : Bool) :
    Nat → Composer Nat
  | 0 => malformed
  | fuel + 1 => do
    if ← nextIn ends then addEmpty
    else node c block indentless fuel

def blockItems (c : Context) : Nat → Composer (List Nat)
  | 0 => malformed
  | fuel + 1 => do
    if ← take? .blockEntry then
      let item ← nodeUnless c [.blockEntry, .blockEnd] true false fuel
      return item :: (← blockItems c fuel)
    else
      expect .blockEnd
      return []

def indentlessItems (c : Context) : Nat → Composer (List Nat)
  | 0 => malformed
  | fuel + 1 => do
    if ← take? .blockEntry then
      let item ← nodeUnless c [.blockEntry, .key, .value, .blockEnd] true false fuel
      return item :: (← indentlessItems c fuel)
    else return []

def blockEntries (c : Context) : Nat → Composer (List (Nat × Nat))
  | 0 => malformed
  | fuel + 1 => do
    if ← take? .key then
      let k ← nodeUnless c [.key, .value, .blockEnd] true true fuel
      let v ← if ← take? .value then nodeUnless c [.key, .value, .blockEnd] true true fuel
        else addEmpty
      return (k, v) :: (← blockEntries c fuel)
    else
      expect .blockEnd
      return []

def flowItems (c : Context) (first : Bool) : Nat → Composer (List Nat)
  | 0 => malformed
  | fuel + 1 => do
    if ← take? .flowSequenceEnd then return []
    if !first then expect .flowEntry
    if ← take? .key then
      let pair ← c.within fun c => do
        let k ← nodeUnless c [.value, .flowEntry, .flowSequenceEnd] false false fuel
        let v ← if ← take? .value then
            nodeUnless c [.flowEntry, .flowSequenceEnd] false false fuel
          else addEmpty
        return (k, v)
      let entry ← add (.mapping .map [pair])
      return entry :: (← flowItems c false fuel)
    else if ← nextIn [.flowSequenceEnd] then flowItems c false fuel
    else
      let item ← node c false false fuel
      return item :: (← flowItems c false fuel)

def flowEntries (c : Context) (first : Bool) : Nat → Composer (List (Nat × Nat))
  | 0 => malformed
  | fuel + 1 => do
    if ← take? .flowMappingEnd then return []
    if !first then expect .flowEntry
    if ← take? .key then
      let k ← nodeUnless c [.value, .flowEntry, .flowMappingEnd] false false fuel
      let v ← if ← take? .value then
          nodeUnless c [.flowEntry, .flowMappingEnd] false false fuel
        else addEmpty
      return (k, v) :: (← flowEntries c false fuel)
    else if ← nextIn [.flowMappingEnd] then flowEntries c false fuel
    else
      let k ← node c false false fuel
      let v ← addEmpty
      return (k, v) :: (← flowEntries c false fuel)

end

def directives (seenVersion : Bool) (handles : Handles) : List Token → Composer Handles
  | .directive (.version major) :: rest => do
    if seenVersion || major != 1 then malformed
    drop
    directives true handles rest
  | .directive (.handle name target) :: rest => do
    if (handles.lookup name).isSome then malformed
    drop
    directives seenVersion ((name, target) :: handles) rest
  | .directive .other :: rest => do
    drop
    directives seenVersion handles rest
  | _ => return handles

def isDirective : Token → Bool
  | .directive _ => true
  | _ => false

def startsExplicit : List Token → Bool
  | [] => true
  | t :: _ => isDirective t || t == .documentStart

def content (c : Context) (fuel : Nat) : Composer Nat := do
  match ← next? with
  | none | some .documentStart | some .documentEnd => addEmpty
  | some t => if isDirective t then addEmpty else node c true false fuel

def single (room fuel : Nat) : Composer (Option Nat) := do
  let tokens := (← get).tokens
  if tokens.isEmpty then return none
  let root ←
    if startsExplicit tokens then do
      let handles ← directives false [] tokens
      expect .documentStart
      content ⟨handles ++ defaultHandles, room⟩ fuel
    else node ⟨defaultHandles, room⟩ true false fuel
  modify fun s => { s with tokens := s.tokens.dropWhile (· == .documentEnd) }
  match ← next? with
  | none => return some root
  | some _ => malformed

end Composer

/-- The document of a text, if it has one; `room` bounds the calls that its collections keep open.
-/
def compose (room : Nat) (text : List Char) : Except TextFault (Option Document) := do
  let ts := tokens text
  let (root, s) ← (Composer.single room (3 * ts.length + 4)).run ⟨ts, #[], []⟩
  return root.map fun root => ⟨s.nodes, root⟩

end OperationHooks.Yaml
