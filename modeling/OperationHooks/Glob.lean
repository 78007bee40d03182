import OperationHooks.Disk.Access

set_option autoImplicit false

namespace OperationHooks

namespace Glob

inductive Piece where
  | anyText
  | anyChar
  | char (c : Char)
  | oneOf (negated : Bool) (ranges : List (Char × Char))
  deriving DecidableEq, Repr

def Piece.holds : Piece → Char → Bool
  | .anyText, _ => true
  | .anyChar, _ => true
  | .char c, d => c == d
  | .oneOf negated ranges, d => negated != ranges.any fun (low, high) => low ≤ d && d ≤ high

def openings : List Piece → List (List Piece)
  | .anyText :: rest => (.anyText :: rest) :: openings rest
  | pieces => [pieces]

def behind (c : Char) : List Piece → List (List Piece)
  | [] => []
  | .anyText :: rest => openings (.anyText :: rest)
  | piece :: rest => if piece.holds c then openings rest else []

/-- All that can be left is kept side by side. Ends of one pattern are the same if they are of one
length. -/
def matchPieces (pieces : List Piece) (cs : List Char) : Bool :=
  (cs.foldl (fun left c => (left.flatMap (behind c)).eraseDupsBy fun p q => p.length == q.length)
    (openings pieces)).any List.isEmpty

/-- The text of a class and what follows its bracket; `none` if the bracket is missing. -/
def classText? (cs : List Char) : Option (List Char × List Char) :=
  let negation := if cs.head? == some '!' then 1 else 0
  let start := if (cs.drop negation).head? == some ']' then negation + 1 else negation
  let inner := (cs.drop start).takeWhile (· != ']')
  let text := cs.take start ++ inner
  if text.length < cs.length then some (text, cs.drop (text.length + 1)) else none

/-- Cuts a class at its range hyphens: the first one behind `skip` characters, and so on. -/
def hyphenChunks : Nat → Nat → List Char → List (List Char)
  | 0, _, cs => [cs]
  | fuel + 1, skip, cs =>
    let run := (cs.drop skip).takeWhile (· != '-')
    let position := skip + run.length
    if position < cs.length then
      cs.take position :: hyphenChunks fuel 2 (cs.drop (position + 1)) else [cs]

def attachLastHyphen (chunks : List (List Char)) : List (List Char) :=
  match chunks.reverse with
  | [] :: last :: before => ((last ++ ['-']) :: before).reverse
  | _ => chunks

def dropEmptyRanges : List (List Char) → List (List Char)
  | [] => []
  | chunk :: rest =>
    match dropEmptyRanges rest with
    | [] => [chunk]
    | next :: more =>
      match chunk.getLast?, next.head? with
      | some low, some high =>
        if low > high then (chunk.dropLast ++ next.drop 1) :: more else chunk :: next :: more
      | _, _ => chunk :: next :: more

def single (c : Char) : Char × Char := (c, c)

def chunkRanges : List (List Char) → List (Char × Char)
  | [] => []
  | [chunk] => chunk.map single
  | chunk :: next :: rest =>
    let range := match chunk.getLast?, next.head? with
      | some low, some high => [(low, high)]
      | _, _ => []
    chunk.map single ++ range ++ chunkRanges (next :: rest)

def classPiece (text : List Char) : Piece :=
  let negated := text.head? == some '!'
  let chunks :=
    if text.contains '-' then
      dropEmptyRanges (attachLastHyphen (hyphenChunks text.length (if negated then 2 else 1) text))
    else [text]
  if negated then
    match chunks with
    | chunk :: rest => .oneOf true (chunkRanges (chunk.drop 1 :: rest))
    | [] => .oneOf true []
  else .oneOf false (chunkRanges chunks)

/-- Pieces of a component; `skip` characters belong to a class read before. -/
def piecesFrom (skip : Nat) : List Char → List Piece
  | [] => []
  | c :: rest =>
    match skip with
    | skip + 1 => piecesFrom skip rest
    | 0 =>
      if c = '*' then
        if rest.head? = some '*' then piecesFrom 0 rest else .anyText :: piecesFrom 0 rest
      else if c = '?' then .anyChar :: piecesFrom 0 rest
      else if c = '[' then
        match classText? rest with
        | none => .char c :: piecesFrom 0 rest
        | some (text, _) => classPiece text :: piecesFrom (text.length + 1) rest
      else .char c :: piecesFrom 0 rest

def matchesName (pattern name : String) : Bool :=
  matchPieces (piecesFrom 0 pattern.toList) name.toList

def hasMagic (s : String) : Bool := s.toList.any fun c => c == '*' || c == '?' || c == '['

def isHidden (s : String) : Bool := s.toList.head? == some '.'

def isRecursive (s : String) : Bool := s == "**"

def namesIn (d : Disk) (directory : Path) : List String :=
  match d.walk true directory with
  | .ok (.entry place .directory) => d.tree.names place
  | _ => []

def isDirectoryAt (d : Disk) (p : Path) : Bool :=
  match d.isDirectory p with
  | .ok found => found
  | .error _ => false

def isThere (d : Disk) (p : Path) : Bool :=
  match d.walk false p with
  | .ok (.entry _ _) => true
  | _ => false

def child (directory : Path) (name : String) : Path :=
  { directory with parts := directory.parts ++ [name] }

def listing (d : Disk) (directoriesOnly : Bool) (directory : Path) : List String :=
  (namesIn d directory).filter fun name =>
    !directoriesOnly || isDirectoryAt d (child directory name)

/-- All paths below a directory that pass through no hidden name, as names from it. A path that is
too long is refused, so `maxPathBytes` bounds the depth. -/
def below (d : Disk) (directoriesOnly : Bool) : Nat → Path → List (List String)
  | 0, _ => []
  | fuel + 1, directory =>
    ((listing d directoriesOnly directory).filter (!isHidden ·)).flatMap fun name =>
      [name] :: (below d directoriesOnly fuel (child directory name)).map (name :: ·)

def expand (d : Disk) (directoriesOnly : Bool) (component : String) (directory : Path) :
    List (List String) :=
  if !hasMagic component then
    if isThere d (child directory component) then [[component]] else []
  else if isRecursive component then [] :: below d directoriesOnly Disk.maxPathBytes directory
  else
    ((listing d directoriesOnly directory).filter fun name =>
      (isHidden component || !isHidden name) && matchesName component name).map fun name => [name]

def follow (d : Disk) (root : Path) : List String → List Path → List Path
  | [], found => found
  | component :: rest, found =>
    follow d root rest (found.flatMap fun p =>
      (expand d (!rest.isEmpty) component (root.join p)).map fun names =>
        { p with parts := p.parts ++ names })

def components (pattern : String) : List String := Disk.namesOf pattern

def isUnaskable (d : Disk) (directory : Path) : Bool :=
  match d.walk true directory with
  | .error .nullCharacter => true
  | _ => false

def find (d : Disk) (root : Path) (pattern : String) : Except Disk.PathFault (List Path) :=
  let anchor := Path.anchorOf pattern.toList
  if pattern.isEmpty then .ok []
  else
    let literal := (components pattern).takeWhile (!hasMagic ·)
    let magic := (components pattern).drop literal.length
    let start : Path := ⟨anchor, literal⟩
    if magic.isEmpty then .ok (if isThere d (root.join start) then [start] else [])
    else if isUnaskable d (root.join start) then .error .nullCharacter
    else
      let found := follow d root magic [start]
      .ok (if magic == ["**"] && literal.isEmpty then found.drop 1 else found)

end Glob

def Path.withoutDots (p : Path) : Path := { p with parts := p.parts.filter (· ≠ ".") }

def discover (d : Disk) (root : Path) (pattern : String) (excluded : List String) :
    Except Disk.PathFault (List Path) := do
  let candidates := (← Glob.find d root pattern).map fun p => root.join p.withoutDots
  let files ← candidates.filterM d.isFile
  return Path.sorted (files.filter fun p => !excluded.contains p.name)

end OperationHooks
