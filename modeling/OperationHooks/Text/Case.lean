import OperationHooks.Text.CaseTable

set_option autoImplicit false

namespace OperationHooks.Text

def inRanges (ranges : List (Nat × Nat)) (n : Nat) : Bool :=
  ranges.any fun (low, high) => low ≤ n && n ≤ high

def shifted (runs : List CaseRun) (c : Char) : Char :=
  match runs.find? (·.holds c.toNat) with
  | some r => Char.ofNat (c.toNat + r.shift).toNat
  | none => c

def lowerChar (c : Char) : List Char :=
  if c.toNat < 128 then [c.toLower]
  else match longLower.find? (·.1 == c.toNat) with
    | some (_, form) => form.map Char.ofNat
    | none => [shifted lowerRuns c]

def upperChar (c : Char) : List Char :=
  if c.toNat < 128 then [c.toUpper]
  else match longUpper.find? (·.1 == c.toNat) with
    | some (_, form) => form.map Char.ofNat
    | none => [shifted upperRuns c]

def isCaseIgnorable (c : Char) : Bool := inRanges caseIgnorableRanges c.toNat
def isCased (c : Char) : Bool := inRanges casedRanges c.toNat

def meetsCased (cs : List Char) : Bool :=
  match cs.dropWhile isCaseIgnorable with
  | [] => false
  | c :: _ => isCased c

/-- `before` holds the characters already passed, nearest first. -/
def lowerFrom (before : List Char) : List Char → List Char
  | [] => []
  | c :: rest =>
    let form :=
      if c = 'Σ' then (if meetsCased before && !meetsCased rest then ['ς'] else ['σ'])
      else lowerChar c
    form ++ lowerFrom (c :: before) rest

def lower (s : String) : String := String.ofList (lowerFrom [] s.toList)
def upper (s : String) : String := String.ofList (s.toList.flatMap upperChar)

def lowerFirstChars : List Char → List Char
  | [] => []
  | c :: rest => lowerChar c ++ rest

def upperFirstChars : List Char → List Char
  | [] => []
  | c :: rest => upperChar c ++ rest

def lowerFirst (s : String) : String := String.ofList (lowerFirstChars s.toList)

/-- Upper-cases the first character only: `query` becomes `Query`. -/
def capitalize (s : String) : String := String.ofList (upperFirstChars s.toList)

end OperationHooks.Text
