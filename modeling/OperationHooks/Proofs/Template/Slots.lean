import Mathlib.Data.List.Basic
import OperationHooks.Proofs.Format
import OperationHooks.Proofs.Text.Wide
import OperationHooks.Template.Library
/-!
Templates that are text with slots and nothing else. What such a template renders to is its text
with the slots filled, and what a line of it says at its front can be told before they are.
-/
set_option autoImplicit false

namespace OperationHooks.Template
open Text (Wide)

inductive Symbol where
  | char (c : Char)
  | slot (name : String)
  deriving DecidableEq

def Node.isPlain : Node → Bool
  | .text _ | .print (.variable _) => true
  | _ => false

def Node.symbols : Node → List Symbol
  | .text t => t.toList.map .char
  | .print (.variable name) => [.slot name]
  | _ => []

def symbols (t : Template) : List Symbol := t.flatMap Node.symbols

/-- The symbols of a node, as they are quickly worked out for a given text. -/
def Node.spelled : Node → List Symbol
  | .text t => (Wide.charsOf t).map .char
  | n => n.symbols

theorem symbols_eq_spelled (t : Template) : symbols t = t.flatMap Node.spelled := by
  refine congrArg (List.flatMap · t) (funext fun n => ?_)
  cases n with
  | text t => exact congrArg (List.map Symbol.char) (Wide.charsOf_eq t).symm
  | _ => rfl

def slots (ss : List Symbol) : List String :=
  ss.filterMap fun
    | .slot name => some name
    | .char _ => none

theorem slots_char (c : Char) (ss : List Symbol) : slots (.char c :: ss) = slots ss := rfl

theorem slots_slot (name : String) (ss : List Symbol) :
    slots (.slot name :: ss) = name :: slots ss := rfl

theorem mem_slots {ss : List Symbol} {name : String} : name ∈ slots ss ↔ .slot name ∈ ss := by
  constructor
  · intro h
    obtain ⟨s,hs,hn⟩ := List.mem_filterMap.1 h
    cases s with
    | char c => cases hn
    | slot name' => cases hn; exact hs
  · exact fun h => List.mem_filterMap.2 ⟨_,h,rfl⟩

/-- The slots of a template can be told from its nodes. -/
def Node.slot? : Node → Option String
  | .print (.variable name) => some name
  | _ => none

theorem slots_symbols (t : Template) : slots (symbols t) = t.filterMap Node.slot? := by
  have hnode : ∀ n : Node, slots n.symbols = n.slot?.toList := fun n => by
    match n with
    | .text cs => simp [Node.symbols,Node.slot?,slots]
    | .print e => cases e <;> rfl
    | .branch .. | .loop .. | .assign .. | .capture .. | .include .. | .extends .. | .block .. =>
      rfl
  induction t with
  | nil => rfl
  | cons n rest ih =>
    have hcons :
        slots (symbols (n :: rest)) = slots n.symbols ++ slots (symbols rest) := by
        simp [symbols,slots]
    rw [hcons,hnode,ih,List.filterMap_cons]
    cases n.slot? <;> rfl

section Filling

variable (value : String → List Char)

def Symbol.fill : Symbol → List Char
  | .char c => [c]
  | .slot name => value name

def fill (ss : List Symbol) : List Char := ss.flatMap (·.fill value)

@[simp] theorem fill_nil : fill value [] = [] := rfl

@[simp] theorem fill_char (c : Char) (ss : List Symbol) :
  fill value (.char c :: ss) = c :: fill value ss := rfl

@[simp] theorem fill_slot (name : String) (ss : List Symbol) :
    fill value (.slot name :: ss) = value name ++ fill value ss := rfl

@[simp] theorem fill_append (ss ss' : List Symbol) :
  fill value (ss ++ ss') = fill value ss ++ fill value ss' :=
  List.flatMap_append

theorem fill_map_char (cs : List Char) : fill value (cs.map .char) = cs := by
  induction cs with
  | nil => rfl
  | cons c cs ih => simp [ih]

end Filling

section Apart

variable {value value' : String → List Char} {slot : String} {ss : List Symbol}

/-- What is filled in for one slot takes up its room once for each time that the slot stands in the
text. -/
theorem length_fill (ho : ∀ name ∈ slots ss, name ≠ slot → value name = value' name) :
    (fill value ss).length + (slots ss).count slot * (value' slot).length =
      (fill value' ss).length + (slots ss).count slot * (value slot).length := by
  induction ss with
  | nil => simp [slots]
  | cons s rest ih =>
    cases s with
    | char c =>
      have hrest := ih ho
      simp only [fill_char,List.length_cons,slots_char]
      omega
    | slot name =>
      rw [slots_slot,List.forall_mem_cons] at ho
      have hrest := ih ho.2
      simp only [fill_slot,List.length_append,slots_slot]
      by_cases hn : name = slot
      · subst hn
        simp only [List.count_cons_self,Nat.add_mul,Nat.one_mul]
        omega
      · rw [List.count_cons_of_ne hn,ho.1 hn]
        omega

theorem eq_of_fill_of_length (ho : ∀ name ∈ slots ss, name ≠ slot → value name = value' name)
    (hl : (value slot).length = (value' slot).length) (hm : slot ∈ slots ss)
    (h : fill value ss = fill value' ss) : value slot = value' slot := by
  induction ss with
  | nil => cases hm
  | cons s rest ih =>
    cases s with
    | char c => exact ih ho hm (List.cons.inj h).2
    | slot name =>
      rw [slots_slot,List.forall_mem_cons] at ho
      rw [fill_slot,fill_slot] at h
      by_cases hn : name = slot
      · subst hn
        exact (List.append_inj h hl).1
      · rw [ho.1 hn] at h
        exact ih ho.2 ((List.mem_cons.1 hm).resolve_left (Ne.symm hn)) (List.append_cancel_left h)

theorem eq_of_fill (ho : ∀ name ∈ slots ss, name ≠ slot → value name = value' name)
    (hm : slot ∈ slots ss)
    (h : fill value ss = fill value' ss) : value slot = value' slot := by
  -- Only a value of known length can be cut out of the text at the first place of its slot.
  refine eq_of_fill_of_length ho ?_ hm h
  have hlength := length_fill ho
  rw [h] at hlength
  exact (Nat.eq_of_mul_eq_mul_left (List.count_pos_iff.2 hm) (Nat.add_left_cancel hlength)).symm

end Apart

section Rendering

variable {value : String → List Char} {vars : Variables} {t : Template}

/-- The slots of a template get their values from its variables. -/
def Supplies (vars : Variables) (value : String → List Char) (t : Template) : Prop :=
  ∀ name ∈ slots (symbols t), vars.lookup name = some (.text (.ofChars (value name)))

theorem renderNode_plain {n : Node} (hn : n.isPlain = true) (hv : Supplies vars value [n])
    (s : Surroundings)
    (r : Rendered) (hr : r.parent = none) (hs : r.scope.vars = vars) :
    renderNode s true r n = .ok (r.add (.ofChars (fill value n.symbols))) := by
  match n, hn with
  | .text t, _ => simp [renderNode,hr,Node.symbols,fill_map_char,Wide.ofString_eq]
  | .print (.variable name), _ =>
    have hname : vars.lookup name = some (.text (.ofChars (value name))) :=
      hv name (by simp [symbols,Node.symbols,slots])
    have hfill : fill value (Node.print (.variable name)).symbols = value name := by
      simp [Node.symbols]
    rw [hfill]
    simp only [renderNode,hr,Option.isSome_none,Bool.false_eq_true,if_false,eval,lookUp,hs,hname,
      Option.getD_some,bind,Except.bind,Value.printed]
    rfl

@[simp] theorem Rendered.output_add (r : Rendered) (s : Wide) :
  (r.add s).output = r.output ++ s := by
  simp [Rendered.output,Rendered.add]

theorem renderNodes_plain (ht : t.all Node.isPlain = true) (hv : Supplies vars value t)
    (s : Surroundings)
    (r : Rendered) (hr : r.parent = none) (hs : r.scope.vars = vars) :
    ∃ r', renderNodes s true r t = .ok r' ∧ r'.parent = none ∧
      r'.output = r.output ++ .ofChars (fill value (symbols t)) := by
  induction t generalizing r with
  | nil => exact ⟨r,rfl,hr,by simp [symbols,Wide.ofChars]⟩
  | cons n rest ih =>
    rw [List.all_cons,Bool.and_eq_true] at ht
    have hcons : symbols (n :: rest) = symbols [n] ++ symbols rest := by simp [symbols]
    have hfirst : Supplies vars value [n] := fun name h => hv name (by
      rw [mem_slots] at h ⊢; rw [hcons]; exact List.mem_append_left _ h)
    have hrest : Supplies vars value rest := fun name h => hv name (by
      rw [mem_slots] at h ⊢; rw [hcons]; exact List.mem_append_right _ h)
    obtain ⟨r',hrun,hparent,houtput⟩ :=
      ih ht.2 hrest (r.add (.ofChars (fill value n.symbols))) hr hs
    refine ⟨r',?_,hparent,?_⟩
    · rw [renderNodes,renderNode_plain ht.1 hfirst s r hr hs]
      exact hrun
    · rw [houtput]
      simp [symbols,Wide.ofChars_append]

theorem render_plain (ht : t.all Node.isPlain = true) (hv : Supplies vars value t) (load : Loader)
    (name : String) : render load vars name t = .ok (.ofChars (fill value (symbols t))) := by
  unfold render maxDepth
  rw [renderTemplate]
  obtain ⟨r,hrun,hparent,houtput⟩ := renderNodes_plain ht hv
    { name
      load
      enterTemplate := fun vars name t => renderTemplate load 99 (addBlocks [] name t) vars name t
      enterBlock := renderBlock load 99 } (.start (addBlocks [] name t) vars vars) rfl rfl
  simp only [hrun,bind,Except.bind,hparent]
  exact congrArg Except.ok houtput

end Rendering

section Lines

variable {value : String → List Char}

def ended (lines : List (List Symbol)) : List Symbol := lines.flatMap (· ++ [.char '\n'])

def cut : List Symbol → List (List Symbol)
  | [] => []
  | s :: rest =>
    if s = .char '\n' then [] :: cut rest
    else match cut rest with
      | [] => [[s]]
      | line :: lines => (s :: line) :: lines

def Symbol.isInLine : Symbol → Bool
  | .char c => !Text.isLineEnd c
  | .slot _ => true

theorem splitLines_ended {lines : List (List Symbol)}
    (hl : ∀ line ∈ lines, ∀ c ∈ fill value line, Text.isLineEnd c = false) :
    Text.splitLines (fill value (ended lines)) = lines.map (fill value) := by
  induction lines with
  | nil => rfl
  | cons line rest ih =>
    obtain ⟨hline,hrest⟩ := List.forall_mem_cons.1 hl
    have hfill :
        fill value (ended (line :: rest)) = fill value line ++ '\n' :: fill value (ended rest) := by
      simp [ended]
    rw [hfill,Text.splitLines_cons hline,ih hrest,List.map_cons]

theorem isLineEnd_of_mem_fill {line : List Symbol} (hl : line.all Symbol.isInLine = true)
    (hv : ∀ name ∈ slots line, ∀ c ∈ value name, Text.isLineEnd c = false) {c : Char}
    (hc : c ∈ fill value line) : Text.isLineEnd c = false := by
  obtain ⟨s,hs,hc⟩ := List.mem_flatMap.1 hc
  cases s with
  | char c' =>
    obtain rfl : c = c' := by simpa [Symbol.fill] using hc
    simpa [Symbol.isInLine] using List.all_eq_true.1 hl _ hs
  | slot name => exact hv name (mem_slots.2 hs) c hc

end Lines

/-- A kind of line: how it opens, and the character that ends what it says then. -/
structure Phrase where
  opening : List Char
  stop : Char

namespace Phrase

def said? (p : Phrase) (line : List Char) : Option (List Char) :=
  (line.dropPrefix? p.opening).map (·.takeWhile (· ≠ p.stop))

def behind : List Char → List Symbol → Option (List Symbol)
  | [], line => some line
  | c :: cs, .char c' :: line => if c = c' then behind cs line else none
  | _ :: _, _ => none

def settles : List Char → List Symbol → Bool
  | [], _ | _ :: _, [] => true
  | c :: cs, .char c' :: line => c ≠ c' || settles cs line
  | _ :: _, .slot _ :: _ => false

def open? (p : Phrase) (line : List Symbol) : Option (List Symbol) :=
  (behind p.opening line).map (·.takeWhile (· ≠ .char p.stop))

variable {p : Phrase} {value : String → List Char} {line : List Symbol}

theorem dropPrefix?_fill {opening : List Char} (h : settles opening line = true) :
    (fill value line).dropPrefix? opening = (behind opening line).map (fill value) := by
  induction opening generalizing line with
  | nil => cases hf : fill value line <;> simp [behind,List.dropPrefix?,hf]
  | cons c cs ih =>
    match line, h with
    | [], _ => rfl
    | .char c' :: line, h =>
      rw [fill_char,behind,List.dropPrefix?]
      by_cases hc : c = c'
      · subst hc
        have hrest : settles cs line = true := by simpa [settles] using h
        simp [ih hrest]
      · simp [hc,Ne.symm hc]

theorem takeWhile_fill {stop : Char}
    (hv : ∀ name ∈ slots (line.takeWhile (· ≠ .char stop)), stop ∉ value name) :
    (fill value line).takeWhile (· ≠ stop) = fill value (line.takeWhile (· ≠ .char stop)) := by
  induction line with
  | nil => rfl
  | cons s rest ih =>
    match s with
    | .char c =>
      by_cases hc : c = stop
      · simp [hc]
      · have hrest := ih fun name h => hv name (by simpa [hc,slots] using h)
        simpa [hc] using hrest
    | .slot name =>
      have hname : ∀ c ∈ value name, decide (c ≠ stop) = true := fun c hc => by
        have hne : c ≠ stop := fun h => hv name (by simp [slots]) (h ▸ hc)
        simpa using hne
      have hrest := ih fun name h => hv name (by
        rw [List.takeWhile_cons_of_pos (by simp)]; exact List.mem_cons_of_mem _ h)
      rw [fill_slot,List.takeWhile_append_of_pos hname,hrest]
      simp

theorem said?_fill (hs : settles p.opening line = true)
    (hv : ∀ body, p.open? line = some body → ∀ name ∈ slots body, p.stop ∉ value name) :
    p.said? (fill value line) = (p.open? line).map (fill value) := by
  rw [said?,dropPrefix?_fill hs]
  cases hb : behind p.opening line with
  | none => simp [open?,hb]
  | some rest =>
    have hopen : p.open? line = some (rest.takeWhile (· ≠ .char p.stop)) := by rw [open?,hb]; rfl
    rw [hopen]
    simp only [Option.map_some]
    rw [takeWhile_fill (hv _ hopen)]

end Phrase

section Said

variable {ps : List Phrase} {value : String → List Char} {ss line : List Symbol}

def saidBy (ps : List Phrase) (line : List Char) : Option (List Char) := ps.findSome? (·.said? line)

def said (ps : List Phrase) (text : String) : List String :=
  ((Text.splitLines text.toList).filterMap (saidBy ps)).map String.ofList

def openBy (ps : List Phrase) (line : List Symbol) : Option (List Symbol) :=
  ps.findSome? (·.open? line)

def openSaid (ps : List Phrase) (ss : List Symbol) : List (List Symbol) :=
  (cut ss).filterMap (openBy ps)

/-- The lines of a text can be told apart before its slots are filled, and in what they say are no
slots but the ones given. -/
def isLined (ps : List Phrase) (allowed : List String) (ss : List Symbol) : Bool :=
  ended (cut ss) == ss && (cut ss).all fun line => line.all Symbol.isInLine && ps.all fun p =>
    Phrase.settles p.opening line && (p.open? line).all fun body =>
      (slots body).all allowed.contains

theorem saidBy_fill (hs : ∀ p ∈ ps, Phrase.settles p.opening line = true)
    (hv : ∀ p ∈ ps, ∀ body, p.open? line = some body → ∀ name ∈ slots body, p.stop ∉ value name) :
    saidBy ps (fill value line) = (openBy ps line).map (fill value) := by
  unfold saidBy openBy
  induction ps with
  | nil => rfl
  | cons p ps ih =>
    obtain ⟨hp,hps⟩ := List.forall_mem_cons.1 hs
    obtain ⟨hvp,hvps⟩ := List.forall_mem_cons.1 hv
    rw [List.findSome?_cons,List.findSome?_cons,Phrase.said?_fill hp hvp,ih hps hvps]
    cases p.open? line <;> rfl

/-- The lines of a filled text are the lines of the text, filled, if no value breaks a line. -/
theorem splitLines_fill {allowed : List String} (ht : isLined ps allowed ss = true)
    (hends : ∀ name ∈ slots ss, ∀ c ∈ value name, Text.isLineEnd c = false) :
    Text.splitLines (fill value ss) = (cut ss).map (fill value) := by
  simp only [isLined,Bool.and_eq_true,beq_iff_eq,List.all_eq_true] at ht
  obtain ⟨hended,hlines⟩ := ht
  have hslots : ∀ line ∈ cut ss, ∀ name ∈ slots line, name ∈ slots ss := fun line hl name hn => by
    rw [mem_slots] at hn ⊢
    rw [← hended]
    exact List.mem_flatMap.2 ⟨line,hl,List.mem_append_left _ hn⟩
  conv_lhs => rw [← hended]
  exact splitLines_ended
    fun line hl c hc => isLineEnd_of_mem_fill (List.all_eq_true.2 (hlines line hl).1)
    (fun name hn => hends name (hslots line hl name hn)) hc

/-- What the lines of a filled text say is what the text says, filled, if no value breaks a line or
ends what is said. -/
theorem said_fill {allowed : List String} (ht : isLined ps allowed ss = true)
    (hends : ∀ name ∈ slots ss, ∀ c ∈ value name, Text.isLineEnd c = false)
    (hstops : ∀ p ∈ ps, ∀ name ∈ allowed, p.stop ∉ value name) :
    said ps (String.ofList (fill value ss)) =
      (openSaid ps ss).map (String.ofList ∘ fill value) := by
  have hlines : ∀ line ∈ cut ss, ∀ p ∈ ps, Phrase.settles p.opening line = true ∧
      (p.open? line).all (fun body => (slots body).all allowed.contains) = true := by
    simp only [isLined,Bool.and_eq_true,List.all_eq_true] at ht
    exact fun line hl => (ht.2 line hl).2
  have hsaid :
      ∀ line ∈ cut ss, saidBy ps (fill value line) = (openBy ps line).map (fill value) := by
    intro line hl
    refine saidBy_fill (fun p hp => (hlines line hl p hp).1) fun p hp body hb name hn =>
      hstops p hp name ?_
    have hbody := (hlines line hl p hp).2
    rw [hb,Option.all_some,List.all_eq_true] at hbody
    simpa using hbody name hn
  rw [said,String.toList_ofList,splitLines_fill ht hends,List.filterMap_map,openSaid,← List.map_map]
  congr 1
  rw [List.map_filterMap]
  exact List.filterMap_congr hsaid

end Said

end OperationHooks.Template
