import OperationHooks.Proofs.Disk.Access

set_option autoImplicit false

namespace OperationHooks.Disk
open Effect

def LinkFree (t : Tree) : Prop := ∀ q target, t.get? q ≠ some (.link target)

/-- Where a run of names leads by the names alone. -/
def lexical (here : Place) (names : List String) : Place :=
  names.foldl (fun here name =>
    if name = "." then here else if name = ".." then here.dropLast else here ++ [name]) here

def placeOf (d : Disk) (p : Path) : Place := lexical (d.startOf p) p.parts

section Lexical

variable (here : Place) (rest : List String)

@[simp] theorem lexical_nil : lexical here [] = here := rfl

@[simp] theorem lexical_dot : lexical here ("." :: rest) = lexical here rest := rfl

@[simp] theorem lexical_up : lexical here (".." :: rest) = lexical here.dropLast rest := rfl

theorem lexical_step {name : String} (hd : name ≠ ".") (hu : name ≠ "..") :
    lexical here (name :: rest) = lexical (here ++ [name]) rest := by simp [lexical,hd,hu]

theorem lexical_append (names : List String) :
    lexical here (names ++ rest) = lexical (lexical here names) rest := by
  simp [lexical,List.foldl_append]

theorem lexical_names {names : List String} (hd : "." ∉ names) (hu : ".." ∉ names) :
    lexical here names = here ++ names := by
  induction names generalizing here with
  | nil => simp
  | cons name rest ih =>
    simp only [List.mem_cons,not_or] at hd hu
    rw [lexical_step here rest (Ne.symm hd.1) (Ne.symm hu.1),ih _ hd.2 hu.2]
    simp

end Lexical

theorem placeOf_eq {d d' : Disk} (h : d'.here = d.here) (p : Path) :
    placeOf d' p = placeOf d p := by
  simp [placeOf,startOf_eq h]

def plainWalk (t : Tree) (here : Place) (names : List String) : Except Errno Found :=
  walkNames t (fun _ _ => .error .tooManyLinks) true here names

section PlainWalk

variable {t u : Tree} {here c : Place} {names : List String}

theorem walkNames_linkFree (h : LinkFree t) (f : Place → List String → Except Errno Found)
    (followLast : Bool) (here : Place) (names : List String) :
    walkNames t f followLast here names = plainWalk t here names := by
  unfold plainWalk
  induction here, names using names_induction with
  | nil here => rfl
  | dot here rest ih => simpa using ih
  | up here rest ih => simpa using ih
  | long here name rest hd hu hl _ =>
    rw [walkNames_long _ _ _ _ _ hd hu hl,walkNames_long _ _ _ _ _ hd hu hl]
  | step here name rest hd hu hl ih =>
    rw [walkNames_step t followLast here rest f hd hu hl,walkNames_step t true here rest _ hd hu hl]
    cases he : t.get? (here ++ [name]) with
    | none => rfl
    | some e =>
      cases e with
      | file bytes executable => rfl
      | directory => exact ih
      | link target => exact absurd he (h _ _)

theorem walkFrom_linkFree (h : LinkFree t) (followLast : Bool) (links : Nat) (here : Place)
    (names : List String) : walkFrom t followLast links here names = plainWalk t here names := by
  cases links <;> exact walkNames_linkFree h _ _ _ _

@[simp] theorem plainWalk_nil (t : Tree) (here : Place) :
    plainWalk t here [] = .ok (.entry here .directory) := rfl

@[simp] theorem plainWalk_dot (t : Tree) (here : Place) (rest : List String) :
    plainWalk t here ("." :: rest) = plainWalk t here rest := walkNames_dot _ _ _ _ _

@[simp] theorem plainWalk_up (t : Tree) (here : Place) (rest : List String) :
    plainWalk t here (".." :: rest) = plainWalk t here.dropLast rest := walkNames_up _ _ _ _ _

theorem plainWalk_long (t : Tree) (here : Place) (rest : List String)
    {name : String} (hd : name ≠ ".")
    (hu : name ≠ "..") (hl : maxNameBytes < name.utf8ByteSize) :
    plainWalk t here (name :: rest) = .error .nameTooLong := walkNames_long _ _ _ _ _ hd hu hl

theorem plainWalk_step (h : LinkFree t) (here : Place) (rest : List String) {name : String}
    (hd : name ≠ ".") (hu : name ≠ "..") (hl : name.utf8ByteSize ≤ maxNameBytes) :
    plainWalk t here (name :: rest) =
      match t.get? (here ++ [name]) with
      | none => if rest.isEmpty then .ok (.missing (here ++ [name])) else .error .noEntry
      | some .directory => plainWalk t (here ++ [name]) rest
      | some e => if rest.isEmpty then .ok (.entry (here ++ [name]) e) else
        .error .notDirectory := by
  rw [plainWalk,walkNames_step t true here rest _ hd hu hl]
  cases he : t.get? (here ++ [name]) with
  | none => rfl
  | some e =>
    cases e with
    | file bytes executable => rfl
    | directory => rfl
    | link target => exact absurd he (h _ _)

theorem place_of_plainWalk (h : LinkFree t) {found : Found}
    (hw : plainWalk t here names = .ok found) :
    found.place = lexical here names := by
  induction here, names using names_induction with
  | nil here => obtain rfl := Except.ok.inj hw; rfl
  | dot here rest ih => exact ih (by simpa using hw)
  | up here rest ih => exact ih (by simpa using hw)
  | long here name rest hd hu hl _ => rw [plainWalk_long t here rest hd hu hl] at hw; cases hw
  | step here name rest hd hu hl ih =>
    rw [plainWalk_step h here rest hd hu hl] at hw
    rw [lexical_step here rest hd hu]
    cases he : t.get? (here ++ [name]) with
    | none =>
      simp only [he] at hw
      split at hw
      · rename_i hr
        obtain rfl := List.isEmpty_iff.1 hr
        obtain rfl := Except.ok.inj hw; rfl
      · cases hw
    | some e =>
      cases e with
      | directory => simp only [he] at hw; exact ih hw
      | file bytes executable =>
        simp only [he] at hw
        split at hw
        · rename_i hr
          obtain rfl := List.isEmpty_iff.1 hr
          obtain rfl := Except.ok.inj hw; rfl
        · cases hw
      | link target => exact absurd he (h _ _)

/-- A walk goes on from the directory that its first names lead to. -/
theorem plainWalk_append (h : LinkFree t) (rest : List String)
    (hw : plainWalk t here names = .ok (.entry c .directory)) :
    plainWalk t here (names ++ rest) = plainWalk t c rest := by
  induction here, names using names_induction with
  | nil here => obtain ⟨rfl,-⟩ := Found.entry.inj (Except.ok.inj hw); rfl
  | dot here names ih => simpa using ih (by simpa using hw)
  | up here names ih => simpa using ih (by simpa using hw)
  | long here name names hd hu hl _ => rw [plainWalk_long t here names hd hu hl] at hw; cases hw
  | step here name names hd hu hl ih =>
    rw [plainWalk_step h here names hd hu hl] at hw
    rw [List.cons_append,plainWalk_step h here (names ++ rest) hd hu hl]
    cases he : t.get? (here ++ [name]) with
    | none => simp only [he] at hw; split at hw <;> cases hw
    | some e =>
      cases e with
      | directory => simp only [he] at hw ⊢; exact ih hw
      | file bytes executable => simp only [he] at hw; split at hw <;> cases hw
      | link target => exact absurd he (h _ _)

theorem plainWalk_directory (ht : LinkFree t) (hu : LinkFree u)
    (hdir : ∀ q, t.get? q = some .directory → u.get? q = some .directory)
    (hw : plainWalk t here names = .ok (.entry c .directory)) :
    plainWalk u here names = .ok (.entry c .directory) := by
  induction here, names using names_induction with
  | nil here => exact hw
  | dot here rest ih => simpa using ih (by simpa using hw)
  | up here rest ih => simpa using ih (by simpa using hw)
  | long here name rest hd hu' hl _ => rw [plainWalk_long t here rest hd hu' hl] at hw; cases hw
  | step here name rest hd hu' hl ih =>
    rw [plainWalk_step ht here rest hd hu' hl] at hw
    rw [plainWalk_step hu here rest hd hu' hl]
    cases he : t.get? (here ++ [name]) with
    | none => simp only [he] at hw; split at hw <;> cases hw
    | some e =>
      cases e with
      | directory => simp only [he] at hw; rw [hdir _ he]; exact ih hw
      | file bytes executable => simp only [he] at hw; split at hw <;> cases hw
      | link target => exact absurd he (ht _ _)

/-- Which directories there are, and what stands at the end, decides which file a walk ends at. -/
theorem plainWalk_file {bytes : List UInt8} {executable : Bool} (ht : LinkFree t) (hu : LinkFree u)
    (hdir : ∀ q, t.get? q = some .directory → u.get? q = some .directory)
    (hlast : u.get? (lexical here names) = t.get? (lexical here names))
    (hw : plainWalk t here names = .ok (.entry c (.file bytes executable))) :
    plainWalk u here names = .ok (.entry c (.file bytes executable)) := by
  induction here, names using names_induction with
  | nil here => cases hw
  | dot here rest ih => simpa using ih (by simpa using hlast) (by simpa using hw)
  | up here rest ih => simpa using ih (by simpa using hlast) (by simpa using hw)
  | long here name rest hd hu' hl _ => rw [plainWalk_long t here rest hd hu' hl] at hw; cases hw
  | step here name rest hd hu' hl ih =>
    rw [plainWalk_step ht here rest hd hu' hl] at hw
    rw [plainWalk_step hu here rest hd hu' hl]
    rw [lexical_step here rest hd hu'] at hlast
    cases he : t.get? (here ++ [name]) with
    | none => simp only [he] at hw; split at hw <;> cases hw
    | some e =>
      cases e with
      | directory => simp only [he] at hw; rw [hdir _ he]; exact ih hlast hw
      | file bytes' executable' =>
        simp only [he] at hw
        split at hw
        · rename_i hr
          obtain rfl := List.isEmpty_iff.1 hr
          rw [lexical_nil,he] at hlast
          rw [hlast]; exact hw
        · cases hw
      | link target => exact absurd he (ht _ _)

end PlainWalk

end OperationHooks.Disk
