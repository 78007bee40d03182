import OperationHooks.Disk.Walk
import OperationHooks.Proofs.Disk.Tree
/-!
The trail of a walk: the places it looks at. What a walk finds depends on them alone; a walk that
still ends at an entry after places were lost has lost none of its trail; and where a walk ends is
where its path settles.
-/
set_option autoImplicit false

namespace OperationHooks.Disk

/-- The places that a walk through one run of names looks at; `follow` gives those behind a link. -/
def trailNames (t : Tree) (follow : Place → List String → List Place) (followLast : Bool)
    (here : Place) : List String → List Place
  | [] => []
  | name :: rest =>
    if name = "." then trailNames t follow followLast here rest
    else if name = ".." then trailNames t follow followLast here.dropLast rest
    else if name.utf8ByteSize > maxNameBytes then []
    else
      (here ++ [name]) ::
        match t.get? (here ++ [name]) with
        | some .directory => trailNames t follow followLast (here ++ [name]) rest
        | some (.link target) =>
          if rest.isEmpty && !followLast then []
          else follow (if isRooted target then [] else here) (namesOf target ++ rest)
        | _ => []

def trailFrom (t : Tree) (followLast : Bool) : Nat → Place → List String → List Place
  | 0, here, names => trailNames t (fun _ _ => []) followLast here names
  | links + 1, here, names => trailNames t (trailFrom t followLast links) followLast here names

def trail (d : Disk) (followLast : Bool) (p : Path) : List Place :=
  trailFrom d.tree followLast maxLinks (d.startOf p) p.parts

def Found.place : Found → Place
  | .entry place _ => place
  | .missing place => place

/-- A run of names either ends, or goes on behind a dot, behind two dots, behind a name that is too
long, or behind a name that is looked up. -/
theorem names_induction {motive : Place → List String → Prop}
    (nil : ∀ here, motive here [])
    (dot : ∀ here rest, motive here rest → motive here ("." :: rest))
    (up : ∀ here rest, motive here.dropLast rest → motive here (".." :: rest))
    (long : ∀ here name rest, name ≠ "." → name ≠ ".." → maxNameBytes < name.utf8ByteSize →
      motive (here ++ [name]) rest → motive here (name :: rest))
    (step : ∀ here name rest, name ≠ "." → name ≠ ".." → name.utf8ByteSize ≤ maxNameBytes →
      motive (here ++ [name]) rest → motive here (name :: rest))
    (here : Place) (names : List String) : motive here names := by
  induction names generalizing here with
  | nil => exact nil here
  | cons name rest ih =>
    by_cases hd : name = "."
    · subst hd; exact dot here rest (ih _)
    by_cases hu : name = ".."
    · subst hu; exact up here rest (ih _)
    by_cases hl : maxNameBytes < name.utf8ByteSize
    · exact long here name rest hd hu hl (ih _)
    · exact step here name rest hd hu (Nat.le_of_not_lt hl) (ih _)

section Equations

variable (t : Tree) (followLast : Bool) (here : Place) (rest : List String)
variable (f : Place → List String → Except Errno Found) (tr : Place → List String → List Place)
variable (enter : Place → List String → Option Place)
variable {name : String}

@[simp] theorem walkNames_nil : walkNames t f followLast here [] = .ok (.entry here .directory) :=
  rfl

@[simp] theorem walkNames_dot : walkNames t f followLast here ("." :: rest) =
    walkNames t f followLast here rest := by simp [walkNames]

@[simp] theorem walkNames_up : walkNames t f followLast here (".." :: rest) =
    walkNames t f followLast here.dropLast rest := by simp [walkNames]

theorem walkNames_long (hd : name ≠ ".") (hu : name ≠ "..")
    (hl : maxNameBytes < name.utf8ByteSize) :
    walkNames t f followLast here (name :: rest) = .error .nameTooLong := by
  simp [walkNames,hd,hu,hl]

theorem walkNames_step (hd : name ≠ ".") (hu : name ≠ "..")
    (hl : name.utf8ByteSize ≤ maxNameBytes) :
    walkNames t f followLast here (name :: rest) =
      match t.get? (here ++ [name]) with
      | none => if rest.isEmpty then .ok (.missing (here ++ [name])) else .error .noEntry
      | some .directory => walkNames t f followLast (here ++ [name]) rest
      | some (.file bytes executable) =>
        if rest.isEmpty then .ok (.entry (here ++ [name]) (.file bytes executable))
        else .error .notDirectory
      | some (.link target) =>
        if rest.isEmpty && !followLast then .ok (.entry (here ++ [name]) (.link target))
        else f (if isRooted target then [] else here) (namesOf target ++ rest) := by
  have hl' : ¬ maxNameBytes < name.utf8ByteSize := Nat.not_lt.2 hl
  exact (if_neg hd).trans ((if_neg hu).trans (if_neg hl'))

@[simp] theorem trailNames_nil : trailNames t tr followLast here [] = [] := rfl

@[simp] theorem trailNames_dot : trailNames t tr followLast here ("." :: rest) =
    trailNames t tr followLast here rest := by simp [trailNames]

@[simp] theorem trailNames_up : trailNames t tr followLast here (".." :: rest) =
    trailNames t tr followLast here.dropLast rest := by simp [trailNames]

theorem trailNames_long (hd : name ≠ ".") (hu : name ≠ "..")
    (hl : maxNameBytes < name.utf8ByteSize) :
    trailNames t tr followLast here (name :: rest) = [] := by
  simp [trailNames,hd,hu,hl]

theorem trailNames_step (hd : name ≠ ".") (hu : name ≠ "..")
    (hl : name.utf8ByteSize ≤ maxNameBytes) :
    trailNames t tr followLast here (name :: rest) =
      (here ++ [name]) ::
        match t.get? (here ++ [name]) with
        | some .directory => trailNames t tr followLast (here ++ [name]) rest
        | some (.link target) =>
          if rest.isEmpty && !followLast then []
          else tr (if isRooted target then [] else here) (namesOf target ++ rest)
        | _ => [] := by
  have hl' : ¬ maxNameBytes < name.utf8ByteSize := Nat.not_lt.2 hl
  simp only [trailNames,hd,hu,hl',if_false]

@[simp] theorem settleNames_nil : settleNames t enter here [] = some here := rfl

@[simp] theorem settleNames_dot : settleNames t enter here ("." :: rest) =
    settleNames t enter here rest := by simp [settleNames]

@[simp] theorem settleNames_up : settleNames t enter here (".." :: rest) =
    settleNames t enter here.dropLast rest := by simp [settleNames]

theorem settleNames_step (hd : name ≠ ".") (hu : name ≠ "..") :
    settleNames t enter here (name :: rest) =
      match t.get? (here ++ [name]) with
      | some (.link target) =>
        (enter (if isRooted target then [] else here) (namesOf target)).bind
          fun inside => settleNames t enter inside rest
      | _ => settleNames t enter (here ++ [name]) rest := by
  simp only [settleNames,hd,hu,if_false]
  cases t.get? (here ++ [name]) with
  | none => rfl
  | some e =>
    cases e with
    | file bytes executable => rfl
    | directory => rfl
    | link target =>
      simp only
      cases enter (if isRooted target then [] else here) (namesOf target) <;> rfl

end Equations

section Congruence

variable {t u : Tree} {followLast : Bool}

theorem walkNames_congr {f g : Place → List String → Except Errno Found}
    {tr tr' : Place → List String → List Place}
    (hf : ∀ here names, (∀ q ∈ tr here names, u.get? q = t.get? q) →
      g here names = f here names ∧ tr' here names = tr here names)
    (here : Place) (names : List String)
    (h : ∀ q ∈ trailNames t tr followLast here names, u.get? q = t.get? q) :
    walkNames u g followLast here names = walkNames t f followLast here names ∧
      trailNames u tr' followLast here names = trailNames t tr followLast here names := by
  induction here, names using names_induction with
  | nil here => simp
  | dot here rest ih => simpa using ih (by simpa using h)
  | up here rest ih => simpa using ih (by simpa using h)
  | long here name rest hd hu hl _ => simp [walkNames_long,trailNames_long,hd,hu,hl]
  | step here name rest hd hu hl ih =>
    rw [trailNames_step t followLast here rest tr hd hu hl] at h ⊢
    rw [trailNames_step u followLast here rest tr' hd hu hl,
      walkNames_step t followLast here rest f hd hu hl,
      walkNames_step u followLast here rest g hd hu hl]
    obtain ⟨hq,hrest⟩ := List.forall_mem_cons.1 h
    rw [hq]
    cases he : t.get? (here ++ [name]) with
    | none => simp
    | some e =>
      cases e with
      | file bytes executable => simp
      | directory =>
        simp only [he] at hrest ⊢
        obtain ⟨hw,ht⟩ := ih hrest
        exact ⟨hw,by rw [ht]⟩
      | link target =>
        simp only [he] at hrest ⊢
        split
        · simp
        · rename_i hb
          rw [if_neg hb] at hrest
          obtain ⟨hw,ht⟩ := hf _ _ hrest
          exact ⟨hw,by rw [ht]⟩

theorem walkFrom_congr (links : Nat) (here : Place) (names : List String)
    (h : ∀ q ∈ trailFrom t followLast links here names, u.get? q = t.get? q) :
    walkFrom u followLast links here names = walkFrom t followLast links here names ∧
      trailFrom u followLast links here names = trailFrom t followLast links here names := by
  induction links generalizing here names with
  | zero => exact walkNames_congr (fun _ _ _ => ⟨rfl,rfl⟩) here names h
  | succ links ih => exact walkNames_congr ih here names h

/-- Where the places of a trail are unchanged or gone and the walk still ends at an entry, all of
them are there and unchanged. -/
theorem kept_of_walkNames {g : Place → List String → Except Errno Found}
    {tr : Place → List String → List Place} {c : Place} {e : Entry}
    (hf : ∀ here names, (∀ q ∈ tr here names, u.get? q = t.get? q ∨ u.get? q = none) →
      g here names = .ok (.entry c e) → ∀ q ∈ tr here names, u.get? q = t.get? q ∧ t.get? q ≠ none)
    (here : Place) (names : List String)
    (h : ∀ q ∈ trailNames t tr followLast here names, u.get? q = t.get? q ∨ u.get? q = none)
    (hw : walkNames u g followLast here names = .ok (.entry c e)) :
    ∀ q ∈ trailNames t tr followLast here names, u.get? q = t.get? q ∧ t.get? q ≠ none := by
  induction here, names using names_induction with
  | nil here => simp
  | dot here rest ih => simpa using ih (by simpa using h) (by simpa using hw)
  | up here rest ih => simpa using ih (by simpa using h) (by simpa using hw)
  | long here name rest hd hu hl _ => simp [walkNames_long u followLast here rest g hd hu hl] at hw
  | step here name rest hd hu hl ih =>
    rw [trailNames_step t followLast here rest tr hd hu hl] at h ⊢
    rw [walkNames_step u followLast here rest g hd hu hl] at hw
    obtain ⟨hq,hrest⟩ := List.forall_mem_cons.1 h
    replace hq : u.get? (here ++ [name]) = t.get? (here ++ [name]) := by
      refine hq.resolve_right fun hq => ?_
      rw [hq] at hw
      simp only at hw
      split at hw <;> cases hw
    rw [hq] at hw
    cases he : t.get? (here ++ [name]) with
    | none =>
      simp only [he] at hw
      split at hw <;> cases hw
    | some e' =>
      refine List.forall_mem_cons.2 ⟨⟨hq,by simp [he]⟩,?_⟩
      cases e' with
      | file bytes executable => simp
      | directory => simp only [he] at hrest hw ⊢; exact ih hrest hw
      | link target =>
        simp only [he] at hrest hw ⊢
        split
        · simp
        · rename_i hb; rw [if_neg hb] at hrest hw; exact hf _ _ hrest hw

theorem kept_of_walkFrom {c : Place} {e : Entry} (links : Nat) (here : Place) (names : List String)
    (h : ∀ q ∈ trailFrom t followLast links here names, u.get? q = t.get? q ∨ u.get? q = none)
    (hw : walkFrom u followLast links here names = .ok (.entry c e)) :
    ∀ q ∈ trailFrom t followLast links here names, u.get? q = t.get? q ∧ t.get? q ≠ none := by
  induction links generalizing here names with
  | zero => exact kept_of_walkNames (fun _ _ _ hw => by cases hw) here names h hw
  | succ links ih => exact kept_of_walkNames ih here names h hw

end Congruence

section Ends

variable {t u : Tree} {followLast : Bool}

/-- A link at the very end is all that following it can change. -/
theorem walkNames_true {f g : Place → List String → Except Errno Found} {r : Except Errno Found}
    (hlink : ∀ c target, r ≠ .ok (.entry c (.link target)))
    (hf : ∀ here names, f here names = r → g here names = r)
    (here : Place) (names : List String) (h : walkNames t f followLast here names = r) :
    walkNames t g true here names = r := by
  induction here, names using names_induction with
  | nil here => exact h
  | dot here rest ih => simpa using ih (by simpa using h)
  | up here rest ih => simpa using ih (by simpa using h)
  | long here name rest hd hu hl _ => rw [walkNames_long _ _ _ _ _ hd hu hl] at h ⊢; exact h
  | step here name rest hd hu hl ih =>
    rw [walkNames_step t followLast here rest f hd hu hl] at h
    rw [walkNames_step t true here rest g hd hu hl]
    cases he : t.get? (here ++ [name]) with
    | none => simpa [he] using h
    | some e =>
      cases e with
      | file bytes executable => simpa [he] using h
      | directory => simp only [he] at h ⊢; exact ih h
      | link target =>
        simp only [he,Bool.not_true,Bool.and_false,Bool.false_eq_true,if_false] at h ⊢
        split at h
        · exact absurd h.symm (hlink _ _)
        · exact hf _ _ h

theorem walkFrom_true {r : Except Errno Found}
    (hlink : ∀ c target, r ≠ .ok (.entry c (.link target)))
    (links : Nat) (here : Place) (names : List String)
    (h : walkFrom t followLast links here names = r) : walkFrom t true links here names = r := by
  induction links generalizing here names with
  | zero => exact walkNames_true hlink (fun _ _ h => h) here names h
  | succ links ih => exact walkNames_true hlink ih here names h

def Found.Agrees (t : Tree) : Found → Prop
  | .missing c => t.get? c = none
  | .entry _ .directory => True
  | .entry c e => t.get? c = some e

theorem agrees_of_walkNames {f : Place → List String → Except Errno Found} {found : Found}
    (hf : ∀ here names, f here names = .ok found → found.Agrees t)
    (here : Place) (names : List String) (h : walkNames t f followLast here names = .ok found) :
    found.Agrees t := by
  induction here, names using names_induction with
  | nil here => obtain rfl := Except.ok.inj h; trivial
  | dot here rest ih => exact ih (by simpa using h)
  | up here rest ih => exact ih (by simpa using h)
  | long here name rest hd hu hl _ => simp [walkNames_long t followLast here rest f hd hu hl] at h
  | step here name rest hd hu hl ih =>
    rw [walkNames_step t followLast here rest f hd hu hl] at h
    cases he : t.get? (here ++ [name]) with
    | none =>
      simp only [he] at h
      split at h
      · obtain rfl := Except.ok.inj h; exact he
      · cases h
    | some e =>
      cases e with
      | file bytes executable =>
        simp only [he] at h
        split at h
        · obtain rfl := Except.ok.inj h; exact he
        · cases h
      | directory => simp only [he] at h; exact ih h
      | link target =>
        simp only [he] at h
        split at h
        · obtain rfl := Except.ok.inj h; exact he
        · exact hf _ _ h

theorem agrees_of_walkFrom {found : Found} (links : Nat) (here : Place) (names : List String)
    (h : walkFrom t followLast links here names = .ok found) : found.Agrees t := by
  induction links generalizing here names with
  | zero => exact agrees_of_walkNames (fun _ _ h => by cases h) here names h
  | succ links ih => exact agrees_of_walkNames ih here names h

/-- A walk that ends with a name and does not follow links there ends at an entry of that name. -/
theorem last_of_walkNames {f : Place → List String → Except Errno Found} {c : Place} {e : Entry}
    {name : String} (hd : name ≠ ".") (hu : name ≠ "..")
    (hf : ∀ here names, f here (names ++ [name]) = .ok (.entry c e) →
      t.get? c = some e ∧ c.getLast? = some name)
    (here : Place) (names : List String)
    (h : walkNames t f false here (names ++ [name]) = .ok (.entry c e)) :
    t.get? c = some e ∧ c.getLast? = some name := by
  induction here, names using names_induction with
  | nil here =>
    by_cases hl : maxNameBytes < name.utf8ByteSize
    · simp [walkNames_long t false here [] f hd hu hl] at h
    · rw [List.nil_append,walkNames_step t false here [] f hd hu (Nat.le_of_not_lt hl)] at h
      cases he : t.get? (here ++ [name]) with
      | none => simp [he] at h
      | some e' =>
        cases e' <;> simp only [he,List.isEmpty_nil,if_true,Bool.not_false,Bool.and_true,
          walkNames_nil,Except.ok.injEq,Found.entry.injEq] at h <;>
          (obtain ⟨rfl,rfl⟩ := h; exact ⟨he,by simp⟩)
  | dot here rest ih => exact ih (by simpa using h)
  | up here rest ih => exact ih (by simpa using h)
  | long here other rest hd' hu' hl _ =>
    simp [walkNames_long t false here (rest ++ [name]) f hd' hu' hl] at h
  | step here other rest hd' hu' hl ih =>
    rw [List.cons_append,walkNames_step t false here (rest ++ [name]) f hd' hu' hl] at h
    cases he : t.get? (here ++ [other]) with
    | none => simp [he] at h
    | some e' =>
      cases e' with
      | file bytes executable => simp [he] at h
      | directory => simp only [he] at h; exact ih h
      | link target =>
        have hr : (rest ++ [name]).isEmpty = false := by simp
        simp only [he,hr,Bool.false_and,Bool.false_eq_true,if_false,← List.append_assoc] at h
        exact hf _ _ h

theorem last_of_walkFrom {c : Place} {e : Entry} {name : String} (hd : name ≠ ".")
    (hu : name ≠ "..")
    (links : Nat) (here : Place) (names : List String)
    (h : walkFrom t false links here (names ++ [name]) = .ok (.entry c e)) :
    t.get? c = some e ∧ c.getLast? = some name := by
  induction links generalizing here names with
  | zero => exact last_of_walkNames hd hu (fun _ _ h => by cases h) here names h
  | succ links ih => exact last_of_walkNames hd hu ih here names h

theorem front_of_walkNames {f g : Place → List String → Except Errno Found} {found : Found}
    {behind : List String} {followLast' : Bool} (hb : behind ≠ [])
    (hf : ∀ here names, f here (names ++ behind) = .ok found → ∃ c e,
      g here names = .ok (.entry c e))
    (here : Place) (names : List String)
    (h : walkNames t f followLast here (names ++ behind) = .ok found) :
    ∃ c e, walkNames t g followLast' here names = .ok (.entry c e) := by
  have hempty : ∀ rest : List String, (rest ++ behind).isEmpty = false := by
    intro rest; simp [hb]
  induction here, names using names_induction with
  | nil here => exact ⟨here,.directory,rfl⟩
  | dot here rest ih => simpa using ih (by simpa using h)
  | up here rest ih => simpa using ih (by simpa using h)
  | long here name rest hd hu hl _ =>
    simp [walkNames_long t followLast here (rest ++ behind) f hd hu hl] at h
  | step here name rest hd hu hl ih =>
    rw [List.cons_append,walkNames_step t followLast here (rest ++ behind) f hd hu hl] at h
    rw [walkNames_step t followLast' here rest g hd hu hl]
    cases he : t.get? (here ++ [name]) with
    | none => simp [he,hempty] at h
    | some e =>
      cases e with
      | file bytes executable => simp [he,hempty] at h
      | directory => simp only [he] at h ⊢; exact ih h
      | link target =>
        simp only [he,hempty,Bool.false_and,Bool.false_eq_true,if_false,← List.append_assoc] at h ⊢
        split
        · exact ⟨_,_,rfl⟩
        · exact hf _ _ h

theorem front_of_walkFrom {found : Found} {behind : List String} {followLast' : Bool}
    (hb : behind ≠ []) (links : Nat) (here : Place) (names : List String)
    (h : walkFrom t followLast links here (names ++ behind) = .ok found) :
    ∃ c e, walkFrom t followLast' links here names = .ok (.entry c e) := by
  induction links generalizing here names with
  | zero => exact front_of_walkNames hb (fun _ _ h => by cases h) here names h
  | succ links ih => exact front_of_walkNames hb ih here names h

theorem put_of_walkNames {f g : Place → List String → Except Errno Found} {c : Place} {e : Entry}
    (hlink : ∀ target, e ≠ .link target) (hc : u.get? c = some e)
    (hu : ∀ q, q ≠ c → u.get? q = t.get? q) (hnone : t.get? c = none)
    (hf : ∀ here names, f here names = .ok (.missing c) → g here names = .ok (.entry c e))
    (here : Place) (names : List String)
    (h : walkNames t f followLast here names = .ok (.missing c)) :
    walkNames u g followLast here names = .ok (.entry c e) := by
  induction here, names using names_induction with
  | nil here => cases h
  | dot here rest ih => simpa using ih (by simpa using h)
  | up here rest ih => simpa using ih (by simpa using h)
  | long here name rest hd hu' hl _ => simp [walkNames_long t followLast here rest f hd hu' hl] at h
  | step here name rest hd hu' hl ih =>
    rw [walkNames_step t followLast here rest f hd hu' hl] at h
    rw [walkNames_step u followLast here rest g hd hu' hl]
    cases he : t.get? (here ++ [name]) with
    | none =>
      simp only [he] at h
      split at h
      · rename_i hr
        obtain rfl := List.isEmpty_iff.1 hr
        obtain rfl := Found.missing.inj (Except.ok.inj h)
        rw [hc]
        cases e with
        | file bytes executable => simp
        | directory => simp
        | link target => exact absurd rfl (hlink target)
      · cases h
    | some e' =>
      have hq : u.get? (here ++ [name]) = some e' := by
        rw [hu _ (fun hq => by rw [hq,hnone] at he; cases he),he]
      rw [hq]
      cases e' with
      | file bytes executable => simp only [he] at h; split at h <;> cases h
      | directory => simp only [he] at h ⊢; exact ih h
      | link target =>
        simp only [he] at h ⊢
        split at h
        · cases h
        · rename_i hb; rw [if_neg hb]; exact hf _ _ h

theorem put_of_walkFrom {c : Place} {e : Entry} (hlink : ∀ target, e ≠ .link target)
    (hc : u.get? c = some e) (hu : ∀ q, q ≠ c → u.get? q = t.get? q) (hnone : t.get? c = none)
    (links : Nat) (here : Place) (names : List String)
    (h : walkFrom t followLast links here names = .ok (.missing c)) :
    walkFrom u followLast links here names = .ok (.entry c e) := by
  induction links generalizing here names with
  | zero => exact put_of_walkNames hlink hc hu hnone (fun _ _ h => by cases h) here names h
  | succ links ih => exact put_of_walkNames hlink hc hu hnone ih here names h

theorem gap_of_walkNames {f g : Place → List String → Except Errno Found} {c d : Place} {e : Entry}
    (hc : u.get? c = none) (hu : ∀ q, q ≠ c → u.get? q = t.get? q)
    (hf : ∀ here names, f here names = .ok (.entry d e) → g here names = .ok (.entry d e) ∨
      g here names = .ok (.missing c) ∨ g here names = .error .noEntry)
    (here : Place) (names : List String)
    (h : walkNames t f followLast here names = .ok (.entry d e)) :
    walkNames u g followLast here names = .ok (.entry d e) ∨
      walkNames u g followLast here names = .ok (.missing c) ∨
      walkNames u g followLast here names = .error .noEntry := by
  induction here, names using names_induction with
  | nil here => exact .inl h
  | dot here rest ih => simpa using ih (by simpa using h)
  | up here rest ih => simpa using ih (by simpa using h)
  | long here name rest hd hu' hl _ => simp [walkNames_long t followLast here rest f hd hu' hl] at h
  | step here name rest hd hu' hl ih =>
    rw [walkNames_step t followLast here rest f hd hu' hl] at h
    rw [walkNames_step u followLast here rest g hd hu' hl]
    by_cases hq : here ++ [name] = c
    · rw [hq,hc]
      cases rest with
      | nil => exact .inr (.inl rfl)
      | cons _ _ => exact .inr (.inr rfl)
    · rw [hu _ hq]
      cases he : t.get? (here ++ [name]) with
      | none => simp only [he] at h; split at h <;> cases h
      | some e' =>
        cases e' with
        | file bytes executable => simp only [he] at h; exact .inl h
        | directory => simp only [he] at h ⊢; exact ih h
        | link target =>
          simp only [he] at h ⊢
          split at h
          · rename_i hb; rw [if_pos hb]; exact .inl h
          · rename_i hb; rw [if_neg hb]; exact hf _ _ h

theorem gap_of_walkFrom {c d : Place} {e : Entry} (hc : u.get? c = none)
    (hu : ∀ q, q ≠ c → u.get? q = t.get? q) (links : Nat) (here : Place) (names : List String)
    (h : walkFrom t followLast links here names = .ok (.entry d e)) :
    walkFrom u followLast links here names = .ok (.entry d e) ∨
      walkFrom u followLast links here names = .ok (.missing c) ∨
      walkFrom u followLast links here names = .error .noEntry := by
  induction links generalizing here names with
  | zero => exact gap_of_walkNames hc hu (fun _ _ h => by cases h) here names h
  | succ links ih => exact gap_of_walkNames hc hu ih here names h

end Ends

end OperationHooks.Disk
