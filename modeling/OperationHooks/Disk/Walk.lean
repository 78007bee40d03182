import OperationHooks.Disk.Tree
import OperationHooks.Disk.Fault

set_option autoImplicit false

namespace OperationHooks.Disk

/-- Where a walk ends: at an entry, or at a name that is not there in a directory that is. -/
inductive Found where
  | entry (place : Place) (entry : Entry)
  | missing (place : Place)
  deriving DecidableEq

def maxNameBytes : Nat := 255
def maxPathBytes : Nat := 4096
def maxLinks : Nat := 40

def namesOf (target : String) : List String :=
  let pieces := Text.splitAt '/' target.toList
  let names := (pieces.filter (!·.isEmpty)).map String.ofList
  if pieces.getLast? == some [] then names ++ ["."] else names

def isRooted (target : String) : Bool := target.toList.head? == some '/'

/-- The walk through one run of names. `follow` goes on behind a link, from a place and the names
that its target and the rest of the path give. -/
def walkNames (t : Tree) (follow : Place → List String → Except Errno Found) (followLast : Bool)
    (here : Place) : List String → Except Errno Found
  | [] => .ok (.entry here .directory)
  | name :: rest =>
    if name = "." then walkNames t follow followLast here rest
    else if name = ".." then walkNames t follow followLast here.dropLast rest
    else if name.utf8ByteSize > maxNameBytes then .error .nameTooLong
    else
      let place := here ++ [name]
      match t.get? place with
      | none => if rest.isEmpty then .ok (.missing place) else .error .noEntry
      | some .directory => walkNames t follow followLast place rest
      | some (.file bytes executable) =>
        if rest.isEmpty then .ok (.entry place (.file bytes executable)) else .error .notDirectory
      | some (.link target) =>
        if rest.isEmpty && !followLast then .ok (.entry place (.link target))
        else follow (if isRooted target then [] else here) (namesOf target ++ rest)

def walkFrom (t : Tree) (followLast : Bool) : Nat → Place → List String → Except Errno Found
  | 0, here, names => walkNames t (fun _ _ => .error .tooManyLinks) followLast here names
  | links + 1, here, names => walkNames t (walkFrom t followLast links) followLast here names

def settleNames (t : Tree) (enter : Place → List String → Option Place) (here : Place) :
    List String → Option Place
  | [] => some here
  | name :: rest =>
    if name = "." then settleNames t enter here rest
    else if name = ".." then settleNames t enter here.dropLast rest
    else
      let place := here ++ [name]
      match t.get? place with
      | some (.link target) =>
        match enter (if isRooted target then [] else here) (namesOf target) with
        | some inside => settleNames t enter inside rest
        | none => none
      | _ => settleNames t enter place rest

/-- Links inside links at most `depth` deep; a tree with fewer links than that has a loop. -/
def settleFrom (t : Tree) : Nat → Place → List String → Option Place
  | 0, here, names => settleNames t (fun _ _ => none) here names
  | depth + 1, here, names => settleNames t (settleFrom t depth) here names

def linkCount (t : Tree) : Nat :=
  (t.entries.filter fun (_, e) => match e with | .link _ => true | _ => false).length

end OperationHooks.Disk

namespace OperationHooks

structure Disk where
  tree : Disk.Tree
  here : Disk.Place

namespace Disk

def startOf (d : Disk) (p : Path) : Place := if p.isAbsolute then [] else d.here

def hasNull (s : String) : Bool := s.toList.contains '\x00'

def walk (d : Disk) (followLast : Bool) (p : Path) : Except PathFault Found :=
  let subject := p.text
  if hasNull subject then .error .nullCharacter
  else if subject.utf8ByteSize ≥ maxPathBytes then .error (.system (.refused .nameTooLong subject))
  else (walkFrom d.tree followLast maxLinks (d.startOf p) p.parts).mapError fun errno =>
    .system (.refused errno subject)

def settle (d : Disk) (p : Path) : Option Place :=
  settleFrom d.tree (linkCount d.tree) (d.startOf p) p.parts

end Disk

end OperationHooks
