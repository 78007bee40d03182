import OperationHooks.Yaml.Node
import OperationHooks.Datum
import OperationHooks.Number.Literal
import OperationHooks.Text.Base64
import OperationHooks.Text.Quoted
/-!
From nodes to data. A collection is first taken for what it is and only later looked into, in the
order in which collections were met, so a fault on an outer level is found before one further
inside. A text can be well formed and still hold a value that its tag does not allow; those faults
are told apart from malformed texts.
-/
set_option autoImplicit false

namespace OperationHooks.Yaml

inductive MomentFault where
  | year | month | day | hour | minute | second
  deriving DecidableEq, Repr

inductive Fault where
  | malformed
  | noSuchCharacter
  | codeTooLarge
  | badInteger (base : Nat) (text : String)
  | emptyNumber
  | badReal (text : String)
  | baseTooLarge
  | badBoolean (text : String)
  | noMoment
  | collectionAsMoment
  | badMoment (year : Nat) (fault : MomentFault)
  | badOffset (offset : Offset)
  | integerTooLong (digits : Nat)
  | tooDeep
  deriving DecidableEq, Repr

def MomentFault.text (year : Nat) : MomentFault → String
  | .year => s!"year {year} is out of range"
  | .month => "month must be in 1..12"
  | .day => "day is out of range for month"
  | .hour => "hour must be in 0..23"
  | .minute => "minute must be in 0..59"
  | .second => "second must be in 0..59"

def minutesOfDay : Nat := 24 * 60

/-- An offset as a number of days and the seconds beyond them, which are never negative. -/
def Offset.text (o : Offset) : String :=
  let minutes : Int := if o.behind then -o.minutes else o.minutes
  let days := Int.fdiv minutes minutesOfDay
  let seconds := Int.fmod minutes minutesOfDay * 60
  if seconds = 0 then s!"datetime.timedelta(days={days})"
  else s!"datetime.timedelta(days={days}, seconds={seconds})"

def Offset.isTooLarge (o : Offset) : Bool := o.minutes ≥ minutesOfDay

/-- What is said of a value; a malformed text is only said to be one by its reader. -/
def Fault.message : Fault → String
  | .malformed => ""
  | .noSuchCharacter => "chr() arg not in range(0x110000)"
  | .codeTooLarge => "Python int too large to convert to C int"
  | .badInteger base text =>
    let shown := String.ofList ((Text.quoted text).toList.take 200)
    s!"invalid literal for int() with base {base}: {shown}"
  | .emptyNumber => "string index out of range"
  | .badReal text => s!"could not convert string to float: {Text.quoted text}"
  | .baseTooLarge => "int too large to convert to float"
  | .badBoolean text => Text.quoted text
  | .noMoment => "'NoneType' object has no attribute 'groupdict'"
  | .collectionAsMoment => "expected string or bytes-like object, got 'list'"
  | .badMoment year fault => fault.text year
  | .badOffset offset =>
    "offset must be a timedelta strictly between -timedelta(hours=24) and timedelta(hours=24)," ++
      s!" not {offset.text}."
  | .integerTooLong digits =>
    s!"Exceeds the limit ({Literal.maxDecimalDigits} digits) for integer string conversion: " ++
      s!"value has {digits} digits; use sys.set_int_max_str_digits() to increase the limit"
  | .tooDeep => "maximum recursion depth exceeded"

def Fault.ofText : TextFault → Fault
  | .malformed => .malformed
  | .noSuchCharacter => .noSuchCharacter
  | .codeTooLarge => .codeTooLarge
  | .tooDeep => .tooDeep

def withoutUnderscores (cs : List Char) : List Char := cs.filter (· != '_')

def integerIn (base : Nat) (cs : List Char) : Except Fault Int :=
  (Literal.integer base cs).mapError fun
    | .unreadable => .badInteger base (String.ofList cs)
    | .tooLong digits => .integerTooLong digits

def sexagesimal (parts : List Int) : Int := parts.foldl (fun total part => total * 60 + part) 0

def magnitude (cs : List Char) : Except Fault Int :=
  match cs with
  | [] => .error .emptyNumber
  | ['0'] => .ok 0
  | '0' :: 'b' :: rest => integerIn 2 rest
  | '0' :: 'x' :: rest => integerIn 16 rest
  | '0' :: _ => integerIn 8 cs
  | _ =>
    if cs.contains ':' then
      ((cs.splitOn ':').mapM (integerIn 10)).map sexagesimal
    else integerIn 10 cs

def integer (text : String) : Except Fault Int :=
  let (negative, body) := Decimal.splitSign (withoutUnderscores text.toList)
  (magnitude body).map fun n => if negative then -n else n

def realOf (cs : List Char) : Except Fault Binary64 :=
  match Literal.real? cs with
  | some x => .ok x
  | none => .error (.badReal (String.ofList cs))

/-- Adds up numbers between colons from the last one on, each worth sixty times the one behind it.
-/
def sexagesimalReal (total : Binary64) (base : Nat) : List Binary64 → Except Fault Binary64
  | [] => .ok total
  | part :: parts =>
    match Binary64.ofRatio false base 1 with
    | .finite s m e => sexagesimalReal (total.add (part.mul (.finite s m e))) (base * 60) parts
    | _ => .error .baseTooLarge

def real (text : String) : Except Fault Binary64 := do
  let cs := (Text.lower (String.ofList (withoutUnderscores text.toList))).toList
  if cs.isEmpty then throw .emptyNumber
  let (negative, body) := Decimal.splitSign cs
  if body == ".inf".toList then return .infinite negative
  if body == ".nan".toList then return .nan
  let magnitude ←
    if body.contains ':' then do
      sexagesimalReal .zero 1 (← (body.splitOn ':').mapM realOf).reverse
    else realOf body
  return if negative then magnitude.neg else magnitude

def boolean (text : String) : Except Fault Bool :=
  let word := Text.lower text
  if ["yes", "true", "on"].contains word then .ok true
  else if ["no", "false", "off"].contains word then .ok false
  else .error (.badBoolean word)

def daysIn (year month : Nat) : Nat :=
  if month = 2 then
    if year % 4 = 0 && (year % 100 != 0 || year % 400 = 0) then 29 else 28
  else if [4, 6, 9, 11].contains month then 30 else 31

def dateFault? (m : Moment) : Option MomentFault :=
  if m.year = 0 then some .year
  else if m.month = 0 || m.month > 12 then some .month
  else if m.day = 0 || m.day > daysIn m.year m.month then some .day
  else none

def timeFault? (t : Moment.Time) : Option MomentFault :=
  if t.hour > 23 then some .hour
  else if t.minute > 59 then some .minute
  else if t.second > 59 then some .second
  else none

/-- What keeps the numbers from being a date and a time; the offset is looked at first. -/
def momentFault? (m : Moment) : Option Fault :=
  match m.time.bind fun t => t.offset.filter Offset.isTooLarge with
  | some offset => some (.badOffset offset)
  | none => ((dateFault? m).or (m.time.bind timeFault?)).map (.badMoment m.year)

def moment (text : String) : Except Fault Datum :=
  match moment? (formOf text.toList) with
  | none => .error .noMoment
  | some m => (momentFault? m).elim (.ok .moment) .error

def binary (text : String) : Except Fault (List UInt8) :=
  let cs := text.toList
  if cs.all (·.toNat < 128) then (Text.fromBase64? cs).elim (.error .malformed) .ok
  else .error .malformed

def scalarDatum (tag : Tag) (text : String) : Except Fault Datum :=
  match tag with
  | .null => .ok .null
  | .bool => (boolean text).map .boolean
  | .int => (integer text).map .integer
  | .float => (real text).map .real
  | .str => .ok (.text text)
  | .binary => (binary text).map .bytes
  | .timestamp => moment text
  | _ => .error .malformed

def brokenDatum (tag : Tag) : Except Fault Datum :=
  match tag with
  | .null => .ok .null
  | .str => .ok .brokenText
  | .timestamp => .error .noMoment
  | _ => .error .malformed

def emptyCollection? : Tag → Option Datum
  | .seq | .omap | .pairs => some (.list [])
  | .map => some (.table [])
  | .set => some (.members [])
  | _ => none

def isKey : Datum → Bool
  | .list _ | .table _ | .members _ => false
  | _ => true

/-- The nodes of a document, what has been made of them, and the collections still to look into;
`room` bounds how many mappings are gone through inside each other. -/
structure Construction where
  nodes : Array Node
  data : Array (Option Datum)
  waiting : List Nat
  room : Nat

abbrev Constructor := StateT Construction (Except Fault)

namespace Constructor

def malformed {α : Type} : Constructor α := throw .malformed

def node (number : Nat) : Constructor Node := return (← get).nodes.getD number default

def setNode (number : Nat) (n : Node) : Constructor Unit :=
  modify fun s => { s with nodes := s.nodes.setIfInBounds number n }

def scalarFor : Nat → Nat → Constructor Node
  | 0, _ => throw .tooDeep
  | room + 1, number => do
    match ← node number with
    | .mapping _ entries =>
      match ← entries.findM? fun (k, _) => return (← node k).tag == .default with
      | some (_, value) => scalarFor room value
      | none => malformed
    | .sequence _ _ => malformed
    | scalar => return scalar

def isMapping (number : Nat) : Constructor Bool := do
  match ← node number with
  | .mapping _ _ => return true
  | _ => return false

def scalar (number : Nat) (tag : Tag) : Constructor Datum := do
  let found ← scalarFor ((← get).room + 1) number
  if tag == .timestamp && (← isMapping number) then throw .collectionAsMoment
  match found with
  | .scalar _ text => (scalarDatum tag text : Except Fault Datum)
  | _ => (brokenDatum tag : Except Fault Datum)

/-- What a node is, made once; a collection is put in the queue of those to look into. -/
def start (number : Nat) : Constructor Datum := do
  if let some d := (← get).data.getD number none then return d
  let tag := (← node number).tag
  let d ←
    match emptyCollection? tag with
    | some d => do
      modify fun s => { s with waiting := s.waiting ++ [number] }
      pure d
    | none => scalar number tag
  modify fun s => { s with data := s.data.setIfInBounds number (some d) }
  return d

def entriesOf (number : Nat) : Constructor (List (Nat × Nat)) := do
  match ← node number with
  | .mapping _ entries => return entries
  | _ => malformed

def setEntries (number : Nat) (entries : List (Nat × Nat)) : Constructor Unit := do
  setNode number (.mapping (← node number).tag entries)

def settleDefaultKey (number : Nat) : Constructor Unit := do
  match ← node number with
  | .scalar .default text => setNode number (.scalar .str text)
  | _ => pure ()

def nextMerge (index : Nat) : List (Nat × Nat) → Constructor (Option (Nat × Nat))
  | [] => return none
  | (k, v) :: rest => do
    if (← node k).tag == .merge then return some (index, v)
    else
      settleDefaultKey k
      nextMerge (index + 1) rest

def within {α : Type} (room : Nat) (work : Nat → Constructor α) : Constructor α :=
  match room with
  | 0 => throw .tooDeep
  | room + 1 => work room

/-- Puts the entries that merge keys bring in before the own entries of a mapping, so that own ones
win; of several merged mappings the first one wins. -/
def flattenFrom (room number : Nat) : Nat → Nat → List (Nat × Nat) → Constructor Unit
  | 0, _, _ => malformed
  | fuel + 1, index, merged => do
    let entries ← entriesOf number
    match ← nextMerge index (entries.drop index) with
    | none => setEntries number (merged ++ (← entriesOf number))
    | some (place, value) =>
      setEntries number (entries.eraseIdx place)
      let brought ←
        match ← node value with
        | .mapping _ _ => do
          within room fun room => flattenFrom room value fuel 0 []
          entriesOf value
        | .sequence _ items => do
          let parts ← items.mapM fun item => do
            if !(← isMapping item) then malformed
            within room fun room => flattenFrom room item fuel 0 []
            entriesOf item
          pure parts.reverse.flatten
        | _ => malformed
      flattenFrom room number fuel place (merged ++ brought)

def flatten (number : Nat) : Constructor Unit := do
  let s ← get
  let size := s.nodes.foldl (fun total n =>
    match n with
    | .mapping _ entries => total + entries.length
    | _ => total) 0
  flattenFrom s.room number (size + 1) 0 []

def startEntry (entry : Nat × Nat) : Constructor Unit := do
  if !isKey (← start entry.1) then malformed
  discard (start entry.2)

def startPair (number : Nat) : Constructor Unit := do
  match ← entriesOf number with
  | [(k, v)] =>
    discard (start k)
    discard (start v)
  | _ => malformed

def lookInto (number : Nat) : Constructor Unit := do
  match ← node number with
  | .sequence .seq items => items.forM fun item => discard (start item)
  | .sequence .omap items | .sequence .pairs items => items.forM startPair
  | .mapping .map _ | .mapping .set _ =>
    flatten number
    (← entriesOf number).forM startEntry
  | _ => malformed

def lookIntoAll : Nat → Constructor Unit
  | 0 => pure ()
  | fuel + 1 => do
    match (← get).waiting with
    | [] => pure ()
    | number :: rest =>
      modify fun s => { s with waiting := rest }
      lookInto number
      lookIntoAll fuel

end Constructor

abbrev Filling := StateM (Array (Option Datum))

/-- A node with all that is in it. A collection shows nothing of itself where it is inside itself.
-/
def fill (made : Construction) : Nat → Nat → Filling Datum
  | 0, _ => return .null
  | fuel + 1, number => do
    if let some d := (← get).getD number none then return d
    let shallow := (made.data.getD number none).getD .null
    modify (·.setIfInBounds number (some shallow))
    let d ←
      match shallow, made.nodes.getD number default with
      | .list _, .sequence .seq items => do pure (.list (← items.mapM (fill made fuel)))
      | .list _, .sequence _ items => do
        let pairs ← items.mapM fun item =>
          match made.nodes.getD item default with
          | .mapping _ entries => entries.mapM fun (k, v) => do
            pure (.list [← fill made fuel k, ← fill made fuel v])
          | _ => pure []
        pure (.list pairs.flatten)
      | .table _, .mapping _ entries => do
        pure (.table (← entries.mapM
          fun (k, v) => do pure (← fill made fuel k, ← fill made fuel v)))
      | .members _, .mapping _ entries => do
        pure (.members (← entries.mapM fun (k, _) => fill made fuel k))
      | d, _ => pure d
    modify (·.setIfInBounds number (some d))
    return d

def Document.datum (room : Nat) (d : Document) : Except Fault Datum := do
  let size := d.nodes.size
  let (_, made) ← (do
    discard (Constructor.start d.root)
    Constructor.lookIntoAll (size + 1) :
      Constructor Unit).run ⟨d.nodes, .replicate size none, [], room⟩
  return ((fill made (size + 1) d.root).run (.replicate size none)).1

/-- A thousand calls can be open at a time; around the reading of a text some of them are. -/
def usualRoom : Nat := 960

def read (room : Nat) (text : String) : Except Fault Datum :=
  match compose room text.toList with
  | .error fault => .error (.ofText fault)
  | .ok none => .ok .null
  | .ok (some document) => document.datum room

end OperationHooks.Yaml
