import OperationHooks.Glob
import OperationHooks.Proofs.Disk.Access
import OperationHooks.Proofs.Path

set_option autoImplicit false

namespace OperationHooks

theorem mem_of_filterM {α ε : Type} {f : α → Except ε Bool} {xs ys : List α}
    (h : xs.filterM f = .ok ys) {y : α} (hy : y ∈ ys) : y ∈ xs ∧ f y = .ok true := by
  have go : ∀ (xs kept zs : List α), xs.filterAuxM f kept = .ok zs → y ∈ zs →
      y ∈ kept ∨ y ∈ xs ∧ f y = .ok true := by
    intro xs
    induction xs with
    | nil => intro kept zs h hy; obtain rfl := Except.ok.inj h; exact .inl hy
    | cons x rest ih =>
      intro kept zs h hy
      rw [List.filterAuxM] at h
      cases hx : f x with
      | error e => rw [hx] at h; cases h
      | ok keep =>
        rw [hx] at h
        rcases ih _ _ h hy with hk | ⟨hr,hf⟩
        · cases keep with
          | false => exact .inl hk
          | true =>
            rcases List.mem_cons.1 hk with rfl | hk
            · exact .inr ⟨List.mem_cons_self,hx⟩
            · exact .inl hk
        · exact .inr ⟨List.mem_cons_of_mem _ hr,hf⟩
  unfold List.filterM at h
  cases hx : xs.filterAuxM f [] with
  | error e => rw [hx] at h; cases h
  | ok zs =>
    rw [hx] at h
    obtain rfl := Except.ok.inj h
    simpa using go xs [] zs hx (List.mem_reverse.1 hy)

theorem isFile_iff_read {d : Disk} {p : Path} :
    d.isFile p = .ok true ↔ ∃ bytes, d.read p = .ok bytes := by
  have hread : (∃ bytes, d.read p = .ok bytes) ↔
      ∃ c bytes executable, d.walk true p = .ok (.entry c (.file bytes executable)) := by
    constructor
    · rintro ⟨bytes,h⟩
      obtain ⟨c,executable,hw⟩ := Disk.read_eq_ok.1 h
      exact ⟨c,bytes,executable,hw⟩
    · rintro ⟨c,bytes,executable,hw⟩; exact ⟨bytes,Disk.read_eq_ok.2 ⟨c,executable,hw⟩⟩
  rw [hread]
  unfold Disk.isFile Disk.entry?
  cases hw : d.walk true p with
  | error fault => by_cases hm : Disk.meansAbsent fault = true <;> simp [hm,Except.map]
  | ok found =>
    cases found with
    | missing c => simp [Except.map]
    | entry c e => cases e <;> simp [Except.map,Disk.isFileEntry]

theorem discover_of_kept {d : Disk} {root : Path} {pattern : String} {excluded : List String}
    {found kept files : List Path} (hg : Glob.find d root pattern = .ok found)
    (hf : (found.map fun p => root.join p.withoutDots).filterM d.isFile = .ok kept)
    (he : ∀ p ∈ kept, excluded.contains p.name = false) (hs : Path.sorted kept = files) :
    discover d root pattern excluded = .ok files := by
  have hkeep : kept.filter (fun p => !excluded.contains p.name) = kept :=
    List.filter_eq_self.2 fun p hp => by rw [he p hp]; rfl
  simp only [discover,hg,hf,bind,Except.bind,pure,Except.pure]
  rw [hkeep,hs]

theorem discover_of_find {d : Disk} {root : Path} {pattern : String} {excluded : List String}
    {found files : List Path} (hg : Glob.find d root pattern = .ok found)
    (hf : (found.map fun p => root.join p.withoutDots).filterM d.isFile = .ok files)
    (he : ∀ p ∈ files, excluded.contains p.name = false)
    (hs : files.Pairwise (Path.lessOrEqual · ·)) (hd : files.Nodup) :
    discover d root pattern excluded = .ok files :=
  discover_of_kept hg hf he (Path.sorted_of_pairwise hs hd)

/-- Each discovered path is a readable file, as seen from the root. -/
theorem mem_discover {d : Disk} {root : Path} {pattern : String} {excluded : List String}
    {files : List Path} (h : discover d root pattern excluded = .ok files) {p : Path}
    (hp : p ∈ files) :
    (∃ q : Path, p = root.join q.withoutDots) ∧ ∃ bytes, d.read p = .ok bytes := by
  unfold discover at h
  cases hg : Glob.find d root pattern with
  | error e => rw [hg] at h; cases h
  | ok found =>
    simp only [hg,bind,Except.bind] at h
    cases hf : (found.map fun p => root.join p.withoutDots).filterM d.isFile with
    | error e => rw [hf] at h; cases h
    | ok kept =>
      simp only [hf,pure,Except.pure] at h
      obtain rfl := Except.ok.inj h
      obtain ⟨hp,-⟩ := List.mem_filter.1 (Path.mem_sorted.1 hp)
      obtain ⟨hp,hfile⟩ := mem_of_filterM hf hp
      obtain ⟨q,-,rfl⟩ := List.mem_map.1 hp
      exact ⟨⟨q,rfl⟩,isFile_iff_read.1 hfile⟩

theorem nodup_discover {d : Disk} {root : Path} {pattern : String} {excluded : List String}
    {files : List Path} (h : discover d root pattern excluded = .ok files) : files.Nodup := by
  unfold discover at h
  cases hg : Glob.find d root pattern with
  | error e => rw [hg] at h; cases h
  | ok found =>
    simp only [hg,bind,Except.bind] at h
    cases hf : (found.map fun p => root.join p.withoutDots).filterM d.isFile with
    | error e => rw [hf] at h; cases h
    | ok kept =>
      simp only [hf,pure,Except.pure] at h
      obtain rfl := Except.ok.inj h
      exact Path.nodup_sorted _

theorem dotless_of_mem_discover {d : Disk} {root : Path} {pattern : String} {excluded : List String}
    {files : List Path} (hroot : root.Dotless) (h : discover d root pattern excluded = .ok files)
    {p : Path} (hp : p ∈ files) : p.Dotless := by
  obtain ⟨⟨q,rfl⟩,-⟩ := mem_discover h hp
  refine Path.dotless_join hroot ?_
  simp [Path.Dotless,Path.withoutDots]

end OperationHooks
