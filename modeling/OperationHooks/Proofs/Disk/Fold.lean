import OperationHooks.Proofs.Disk.Overlay

set_option autoImplicit false

namespace OperationHooks.Disk

section Fold

variable {d : Disk} {p q : Path} {here : Place} {absolute : Bool}
  {folded parts : List String} {part : String}

theorem lexical_foldStep (habsolute : absolute = true → here = []) (hdot : "." ∉ folded) :
    lexical here (Path.foldStep absolute folded part).reverse =
      lexical (lexical here folded.reverse) [part] := by
  unfold Path.foldStep
  split
  · rename_i hpart
    subst hpart
    cases folded with
    | nil =>
      by_cases h : absolute = true
      · simp [h,habsolute h]
      · simp [h]
    | cons last before =>
      have hlast : last ≠ "." := fun h => hdot (h ▸ List.mem_cons_self)
      dsimp only
      split
      · rw [List.reverse_cons,lexical_append]
      · rename_i hup
        rw [List.reverse_cons,lexical_append,lexical_step _ _ hlast hup]
        simp
  · rw [List.reverse_cons,lexical_append]

theorem dotless_foldStep (hdot : "." ∉ folded) (hpart : part ≠ ".") :
    "." ∉ Path.foldStep absolute folded part := by
  unfold Path.foldStep
  split
  · cases folded with
    | nil => by_cases h : absolute = true <;> simp [h,hpart.symm]
    | cons last before =>
      dsimp only
      split
      · simpa [hpart.symm] using hdot
      · exact fun h => hdot (List.mem_cons_of_mem _ h)
  · simpa [hpart.symm] using hdot

theorem lexical_foldl (habsolute : absolute = true → here = []) (hdot : "." ∉ folded)
    (hparts : "." ∉ parts) :
    lexical here (parts.foldl (Path.foldStep absolute) folded).reverse =
      lexical (lexical here folded.reverse) parts := by
  induction parts generalizing folded with
  | nil => rfl
  | cons part rest ih =>
    simp only [List.mem_cons,not_or] at hparts
    rw [List.foldl_cons,ih (dotless_foldStep hdot (Ne.symm hparts.1)) hparts.2,
      lexical_foldStep habsolute hdot,
      ← lexical_append]
    rfl

theorem placeOf_fold (hp : p.Dotless) : placeOf d p.fold = placeOf d p := by
  have hstart : d.startOf p.fold = d.startOf p := rfl
  rw [placeOf,placeOf,hstart]
  refine (lexical_foldl (fun h => ?_) List.not_mem_nil hp).trans rfl
  rw [startOf,if_pos h]

theorem directory_of_up {t : Tree} {names : List String} {c : Place} {e : Entry} (h : LinkFree t)
    (hw : plainWalk t here (names ++ [".."]) = .ok (.entry c e)) : e = .directory := by
  induction here, names using names_induction with
  | nil here =>
    rw [List.nil_append,plainWalk_up] at hw
    obtain ⟨-,rfl⟩ := Found.entry.inj (Except.ok.inj hw)
    rfl
  | dot here rest ih => exact ih (by simpa using hw)
  | up here rest ih => exact ih (by simpa using hw)
  | long here name rest hd hu hl _ =>
    rw [List.cons_append,plainWalk_long t here _ hd hu hl] at hw; cases hw
  | step here name rest hd hu hl ih =>
    have hmore : (rest ++ [".."]).isEmpty = false := by simp
    rw [List.cons_append,plainWalk_step h here _ hd hu hl] at hw
    cases he : t.get? (here ++ [name]) with
    | none => simp only [he,hmore] at hw; cases hw
    | some e =>
      cases e with
      | directory => simp only [he] at hw; exact ih hw
      | file bytes executable => simp only [he,hmore] at hw; cases hw
      | link target => exact absurd he (h _ _)

theorem placeOf_of_read (hd : LinkFree d.tree) (hp : p.Dotless) {bytes : List UInt8}
    (h : d.read p = .ok bytes) :
    ∃ name, placeOf d p = placeOf d p.parent ++ [name] := by
  obtain ⟨c,executable,hwalk⟩ := read_eq_ok.1 h
  obtain ⟨-,hwalk⟩ := (walk_linkFree hd _).1 hwalk
  rcases List.eq_nil_or_concat p.parts with hnil | ⟨front,name,hparts⟩
  · rw [hnil] at hwalk; cases hwalk
  rw [List.concat_eq_append] at hparts
  have hparent : placeOf d p.parent = lexical (d.startOf p) front := by
    show lexical (d.startOf p) p.parts.dropLast = _
    rw [hparts,List.dropLast_concat]
  have hdot : name ≠ "." := by rintro rfl; exact hp (by rw [hparts]; simp)
  have hup : name ≠ ".." := by
    rintro rfl
    rw [hparts] at hwalk
    cases directory_of_up hd hwalk
  refine ⟨name,?_⟩
  rw [hparent,placeOf,hparts,lexical_append,lexical_step _ _ hdot hup,lexical_nil]

/-- What is beside one file by one path is so by every path to it. -/
theorem placeOf_beside {s : String} (h : placeOf d p.parent = placeOf d q.parent) :
    placeOf d (p.parent / s) = placeOf d (q.parent / s) := by
  show placeOf d (p.parent.join (.ofString s)) = placeOf d (q.parent.join (.ofString s))
  unfold Path.join
  split
  · rfl
  · show lexical (d.startOf p.parent) (p.parent.parts ++ _) =
        lexical (d.startOf q.parent) (q.parent.parts ++ _)
    rw [lexical_append,lexical_append]
    exact congrArg (lexical · _) h

end Fold

end OperationHooks.Disk
