import OperationHooks.Choice
import OperationHooks.Definition
import OperationHooks.Hook
import OperationHooks.Proofs.Disk.Overlay
import OperationHooks.Proofs.Text.Wide
/-!
The paths of hook modules: each is a file right in the output directory of its definition, and its
name tells the name of the hook. No module has the name of an index.
-/
set_option autoImplicit false

namespace OperationHooks

open Disk

section Extension

variable {stem extension : String}

theorem stemChars_append (cs extension : List Char) (hc : cs ≠ []) (he : extension ≠ [])
    (hd : '.' ∉ extension) : Path.stemChars (cs ++ '.' :: extension) = cs := by
  have htake : (cs ++ '.' :: extension).reverse.takeWhile (· ≠ '.') = extension.reverse := by
    have hall : ∀ c ∈ extension.reverse, decide (c ≠ '.') = true := fun c hc => by
      have hne : c ≠ '.' := fun h => hd (h ▸ List.mem_reverse.1 hc)
      simp [hne]
    rw [List.reverse_append,List.reverse_cons,List.append_assoc,List.takeWhile_append_of_pos hall]
    simp
  have hlength : (cs ++ '.' :: extension).length - extension.reverse.length - 1 = cs.length := by
    simp; omega
  have hshort : extension.reverse.length ≠ (cs ++ '.' :: extension).length := by simp; omega
  unfold Path.stemChars
  simp only [htake,hlength,List.take_left']
  rw [if_neg]
  simpa [hc,he] using hshort

theorem stem_of_name {p : Path} (h : p.name = stem ++ "." ++ extension) (hs : stem ≠ "")
    (he : extension ≠ "")
    (hd : '.' ∉ extension.toList) : p.stem = stem := by
  have htext : (stem ++ "." ++ extension).toList = stem.toList ++ '.' :: extension.toList := by simp
  have hne : ∀ {s : String}, s ≠ "" → s.toList ≠ [] := fun h he => h (by simpa using he)
  rw [Path.stem,h,htext,stemChars_append _ _ (hne hs) (hne he) hd,String.ofList_toList]

theorem stem_childOf (p : Path) (hs : stem ≠ "") (he : extension ≠ "")
    (hd : '.' ∉ extension.toList) :
    (childOf p (stem ++ "." ++ extension)).stem = stem := stem_of_name (name_childOf p _) hs he hd

end Extension

namespace Extension

theorem text_ne (e : Extension) : e.text ≠ "" := by cases e <;> decide

theorem dot_not_mem_text (e : Extension) : '.' ∉ e.text.toList := by cases e <;> decide

theorem slash_not_mem_text (e : Extension) : '/' ∉ e.text.toList := by cases e <;> decide

end Extension

theorem GraphQL.Name.isNamePart_of_mem (n : Name) {c : Char} (h : c ∈ n.text.toList) :
    isNamePart c = true := by
  have hv := n.valid
  rw [text,String.toList_ofList] at h
  cases hc : n.chars with
  | nil => rw [hc] at h; cases h
  | cons first rest =>
    rw [hc] at h hv
    simp only [isName,Bool.and_eq_true,List.all_eq_true] at hv
    rcases List.mem_cons.1 h with rfl | h
    · simp [isNamePart,hv.1]
    · exact hv.2 c h

theorem GraphQL.toNat_of_isNamePart {c : Char} (h : isNamePart c = true) :
    48 ≤ c.toNat ∧ c.toNat ≤ 122 := by
  simp only [isNamePart,isNameStart,isLetter,isDigit,Bool.or_eq_true,Bool.and_eq_true,
    decide_eq_true_eq,
    beq_iff_eq,Char.le_def,UInt32.le_iff_toNat_le] at h
  rcases h with ((⟨h,h'⟩ | ⟨h,h'⟩) | rfl) | ⟨h,h'⟩
  · exact ⟨Nat.le_trans (by decide) h,h'⟩
  · exact ⟨Nat.le_trans (by decide) h,Nat.le_trans h' (by decide)⟩
  · decide
  · exact ⟨h,Nat.le_trans h' (by decide)⟩

theorem GraphQL.isLineEnd_of_isNamePart {c : Char} (h : isNamePart c = true) :
    Text.isLineEnd c = false := by
  have hrange := toNat_of_isNamePart h
  simp only [Text.isLineEnd,Bool.or_eq_false_iff,Bool.and_eq_false_iff,decide_eq_false_iff_not,
    beq_eq_false_iff_ne]
  omega

namespace Descriptor

variable {policy : SelectionPolicy} {disk : Disk} {path : Path} {d : Descriptor}

theorem ofFile_eq_ok (h : ofFile policy disk path = .ok d) :
    ∃ document, d = ofDocument policy path document := by
  unfold ofFile at h
  cases hb : (disk.read path).mapError (Fault.ofAccess path) with
  | error e => rw [hb] at h; cases h
  | ok bytes =>
    cases ht : (Text.decode bytes).mapError Fault.undecodable with
    | error e => simp only [hb,bind,Except.bind,ht] at h; cases h
    | ok text =>
      simp only [hb,bind,Except.bind,ht,ofSource] at h
      split at h
      · cases h
      · exact ⟨_,(Except.ok.inj h).symm⟩

theorem sourcePath_of_ofFile (h : ofFile policy disk path = .ok d) : d.sourcePath = path := by
  obtain ⟨document,rfl⟩ := ofFile_eq_ok h
  unfold ofDocument; split <;> rfl

def IsNamed (d : Descriptor) : Prop :=
  ∀ name, d.name = some name → ∀ c ∈ name.toList, GraphQL.isNamePart c = true

theorem IsNamed.isNamePart (h : d.IsNamed) :
    ∀ c ∈ (d.name.getD "None").toList, GraphQL.isNamePart c = true := by
  cases hd : d.name with
  | none => exact List.all_eq_true.1 (by decide : "None".toList.all GraphQL.isNamePart = true)
  | some name => exact h name hd

theorem IsNamed.slash_not_mem (h : d.IsNamed) : '/' ∉ (d.name.getD "None").toList :=
  fun hc => absurd (h.isNamePart _ hc) (by decide)

theorem isNamed_of_ofFile (h : ofFile policy disk path = .ok d) : d.IsNamed := by
  intro name hn c hc
  obtain ⟨document,rfl⟩ := ofFile_eq_ok h
  unfold ofDocument at hn
  split at hn
  · obtain ⟨n,-,rfl⟩ := Option.map_eq_some_iff.1 hn
    exact n.isNamePart_of_mem hc
  · cases hn

end Descriptor

namespace Hook.Settings

variable {s : Settings} {d d' : Descriptor}

def fileName (s : Settings) (d : Descriptor) : String := s.nameOf d ++ "." ++ s.extension

theorem nameOf_eq (s : Settings) (d : Descriptor) :
    ∃ c ∈ ['y','n','e'], (s.nameOf d).toList.getLast? = some c := by
  have hkind :
      ∀ k : Kind, ∃ c ∈ ['y','n','e'], (Text.capitalize k.text).toList.getLast? = some c := by
    intro k
    cases k with
    | query => exact ⟨'y',by decide,by decide⟩
    | mutation => exact ⟨'n',by decide,by decide⟩
    | subscription => exact ⟨'n',by decide,by decide⟩
    | unclassifiable => exact ⟨'e',by decide,by decide⟩
  obtain ⟨c,hc,hl⟩ := hkind d.kind
  refine ⟨c,hc,?_⟩
  have htext : (s.nameOf d).toList =
      (s.namePrefix ++ d.name.getD "None").toList ++ (Text.capitalize d.kind.text).toList := by
    rw [← String.toList_append]; rfl
  rw [htext,List.getLast?_append,hl]
  rfl

theorem nameOf_ne (s : Settings) (d : Descriptor) : s.nameOf d ≠ "" := by
  intro he
  obtain ⟨c,-,hl⟩ := nameOf_eq s d
  rw [he] at hl; cases hl

theorem nameOf_ne_index (s : Settings) (d : Descriptor) : s.nameOf d ≠ "index" := by
  intro he
  obtain ⟨c,hc,hl⟩ := nameOf_eq s d
  rw [he] at hl
  obtain rfl : 'x' = c := Option.some.inj hl
  simp at hc

theorem fileName_ne_index (s : Settings) (d : Descriptor) :
    s.fileName d ≠ "index" ++ "." ++ s.extension :=
  fun h => nameOf_ne_index s d ((String.append_left_inj _).1 ((String.append_left_inj _).1 h))

theorem mem_nameOf_cases {c : Char} (hc : c ∈ (s.nameOf d).toList) :
    c ∈ s.namePrefix.toList ∨ c ∈ (d.name.getD "None").toList ∨ GraphQL.isNamePart c = true := by
  have hkind : ∀ k : Kind, (Text.capitalize k.text).toList.all GraphQL.isNamePart = true := by
    intro k
    cases k <;> decide
  have htext : s.nameOf d = s.namePrefix ++ d.name.getD "None" ++ Text.capitalize d.kind.text := rfl
  simp only [htext,String.toList_append,List.mem_append] at hc
  rcases hc with (hc | hc) | hc
  · exact .inl hc
  · exact .inr (.inl hc)
  · exact .inr (.inr (List.all_eq_true.1 (hkind d.kind) c hc))

theorem mem_nameOf (hn : d.IsNamed) {c : Char} (hc : c ∈ (s.nameOf d).toList) :
    c ∈ s.namePrefix.toList ∨ GraphQL.isNamePart c = true := by
  rcases mem_nameOf_cases hc with hc | hc | hc
  · exact .inl hc
  · exact .inr (hn.isNamePart c hc)
  · exact .inr hc

theorem slash_not_mem_nameOf (hp : '/' ∉ s.namePrefix.toList)
    (hn : '/' ∉ (d.name.getD "None").toList) :
    '/' ∉ (s.nameOf d).toList := by
  intro hc
  rcases mem_nameOf_cases hc with hc | hc | hc
  · exact hp hc
  · exact hn hc
  · exact absurd hc (by decide)

theorem isLineEnd_of_mem_nameOf
    (hp : ∀ c ∈ s.namePrefix.toList, Text.isLineEnd c = false) (hn : d.IsNamed)
    {c : Char} (hc : c ∈ (s.nameOf d).toList) : Text.isLineEnd c = false :=
  (mem_nameOf hn hc).elim (hp c) GraphQL.isLineEnd_of_isNamePart

theorem isPart_of_extension {stem extension : String} (hs : stem ≠ "") (he : extension ≠ "")
    (h : '/' ∉ stem.toList) (h' : '/' ∉ extension.toList) :
    Path.IsPart (stem ++ "." ++ extension) ∧ stem ++ "." ++ extension ≠ ".." := by
  have hne : stem.toList ≠ [] := fun he => hs (by simpa using he)
  obtain ⟨c,cs,hcs⟩ := List.exists_cons_of_ne_nil hne
  have htext :
      (stem ++ "." ++ extension).toList = c :: (cs ++ '.' :: extension.toList) := by simp [hcs]
  refine ⟨⟨fun hd => ?_,fun hd => ?_,?_⟩,fun hd => ?_⟩
  · rw [hd] at htext; cases htext
  · rw [hd] at htext; simp at htext
  · simp [h,h']
  · rw [hd] at htext
    cases cs with
    | nil => simp at htext; exact he htext.2
    | cons _ _ => simp at htext

structure IsSlashFree (s : Settings) : Prop where
  namePrefix : '/' ∉ s.namePrefix.toList
  extension : ∃ e : Extension, s.extension = e.text

theorem IsSlashFree.isPart_fileName (h : s.IsSlashFree) (hn : '/' ∉ (d.name.getD "None").toList) :
    Path.IsPart (s.fileName d) ∧ s.fileName d ≠ ".." := by
  obtain ⟨e,he⟩ := h.extension
  unfold fileName
  rw [he]
  exact isPart_of_extension (nameOf_ne s d) e.text_ne (slash_not_mem_nameOf h.namePrefix hn)
    e.slash_not_mem_text

theorem IsSlashFree.isPart (h : s.IsSlashFree) (hn : d.IsNamed) :
    Path.IsPart (s.fileName d) ∧ s.fileName d ≠ ".." := h.isPart_fileName hn.slash_not_mem

theorem IsSlashFree.outputPath_eq (h : s.IsSlashFree) (hn : d.IsNamed) :
    s.outputPath d = childOf (s.outputDirectory d.sourcePath) (s.fileName d) :=
      div_part _ (h.isPart hn).1

theorem IsSlashFree.stem_of_fileName (h : s.IsSlashFree) {p : Path} (hp : p.name = s.fileName d) :
    p.stem = s.nameOf d := by
  obtain ⟨e,he⟩ := h.extension
  rw [fileName,he] at hp
  exact stem_of_name hp (nameOf_ne s d) e.text_ne e.dot_not_mem_text

theorem IsSlashFree.stem_outputPath (h : s.IsSlashFree) (hn : d.IsNamed) :
    (s.outputPath d).stem = s.nameOf d :=
  h.stem_of_fileName (by rw [h.outputPath_eq hn,name_childOf])

theorem path_of_draft {disk : Disk} {variant : Option Variant} {draft : Draft}
    (h : s.draft disk variant d = .ok draft) :
    draft.path = s.outputPath d ∧ variant.isSome ∧ d.properName?.isSome := by
  unfold Settings.draft at h
  split at h
  · rename_i hn
    split at h
    · cases h
    · obtain rfl := Except.ok.inj h
      exact ⟨rfl,rfl,by rw [hn]; rfl⟩
  · cases h

/-- A module is a draft of characters alone. -/
theorem render_eq_ok {disk : Disk} {variant : Option Variant} {m : Module} :
    s.render disk variant d = .ok m ↔
    s.draft disk variant d = .ok ⟨m.path,.ofString m.content⟩ := by
  unfold render
  cases hd : s.draft disk variant d with
  | error fault => exact ⟨nofun,nofun⟩
  | ok draft =>
    simp only [bind,Except.bind]
    cases ht : draft.content.toText with
    | error text =>
      refine ⟨nofun,fun h => ?_⟩
      obtain rfl := Except.ok.inj h
      rw [Text.Wide.toText_eq_ok.2 rfl] at ht
      cases ht
    | ok text =>
      rw [Text.Wide.toText_eq_ok] at ht
      constructor
      · intro h
        obtain rfl := Except.ok.inj h
        exact congrArg (Except.ok ∘ Draft.mk draft.path) ht
      · intro h
        obtain rfl := Except.ok.inj h
        rw [← Text.Wide.ofString_inj.1 ht]
        rfl

theorem path_of_render {disk : Disk} {variant : Option Variant} {m : Module}
    (h : s.render disk variant d = .ok m) :
    m.path = s.outputPath d ∧ variant.isSome ∧ d.properName?.isSome :=
  path_of_draft (render_eq_ok.1 h)

/-- What the name of a module has behind the prefix. -/
def ending (s : Settings) (d : Descriptor) : List Char :=
  (d.name.getD "None").toList ++ (Text.capitalize d.kind.text).toList ++ '.' :: s.extension.toList

theorem outputPath_eq_join (s : Settings) (d : Descriptor) : s.outputPath d =
    (s.outputDirectory d.sourcePath).join (Path.ofChars (s.namePrefix.toList ++ s.ending d)) := by
  have htext : (s.fileName d).toList = s.namePrefix.toList ++ s.ending d := by
    have hname :
        s.nameOf d = s.namePrefix ++ d.name.getD "None" ++ Text.capitalize d.kind.text := rfl
    simp [fileName,hname,ending]
  rw [← htext]
  rfl

theorem two_le_length_ending (hx : s.extension ≠ "") : 2 ≤ (s.ending d).length := by
  have hlength : s.extension.toList.length ≠ 0 := by simpa using hx
  simp only [ending,List.length_append,List.length_cons]
  omega

theorem slash_not_mem_ending (hn : d.IsNamed) (hx : '/' ∉ s.extension.toList) :
    '/' ∉ s.ending d := by
  have hpart : ∀ c ∈ (d.name.getD "None").toList ++ (Text.capitalize d.kind.text).toList,
      GraphQL.isNamePart c = true := by
    intro c hc
    have hc : c ∈ (nameOf { s with namePrefix := "" } d).toList := by
      show c ∈ ("" ++ d.name.getD "None" ++ Text.capitalize d.kind.text).toList
      simpa using hc
    exact (mem_nameOf hn hc).resolve_left (by simp)
  intro hc
  rcases List.mem_append.1 hc with hc | hc
  · exact absurd (hpart _ hc) (by decide)
  · rcases List.mem_cons.1 hc with hc | hc
    · cases hc
    · exact hx hc

/-- A query or a mutation that has a name. -/
structure Hookable (d : Descriptor) : Prop where
  named : ∃ name, d.name = some name
  kind : d.kind = .query ∨ d.kind = .mutation

theorem kind_of_suffix {k k' : Kind}
    (h : (Text.capitalize k.text).toList <:+ (Text.capitalize k'.text).toList) : k = k' := by
  cases k <;> cases k' <;> first | rfl | (revert h; decide)

theorem append_kind_inj {cs cs' : List Char} {k k' : Kind}
    (h : cs ++ (Text.capitalize k.text).toList = cs' ++ (Text.capitalize k'.text).toList) :
      cs = cs' ∧ k = k' := by
  have hkind : k = k' := by
    rcases List.suffix_or_suffix_of_suffix (List.suffix_append cs _)
      (h ▸ List.suffix_append cs' _) with hs | hs
    · exact kind_of_suffix hs
    · exact (kind_of_suffix hs).symm
  subst hkind
  exact ⟨List.append_cancel_right h,rfl⟩

theorem ending_inj (h : ∃ name, d.name = some name) (h' : ∃ name, d'.name = some name) :
    s.ending d = s.ending d' ↔ d.name = d'.name ∧ d.kind = d'.kind := by
  obtain ⟨name,hname⟩ := h
  obtain ⟨name',hname'⟩ := h'
  refine ⟨fun he => ?_,fun ⟨hn,hk⟩ => by rw [ending,ending,hn,hk]⟩
  obtain ⟨hfront,hkind⟩ := append_kind_inj (List.append_cancel_right he)
  rw [hname,hname'] at hfront ⊢
  exact ⟨congrArg some (String.toList_injective hfront),hkind⟩

/-- Two modules go to one path if their names and kinds agree, and their directories, unless the
prefix makes these of no account. -/
theorem outputPath_eq_iff (hx : ∃ e : Extension, s.extension = e.text) (hn : d.IsNamed)
    (hn' : d'.IsNamed)
    (h : Hookable d) (h' : Hookable d') : s.outputPath d = s.outputPath d' ↔
      (s.namePrefix.toList.head? = some '/' ∨
        s.outputDirectory d.sourcePath = s.outputDirectory d'.sourcePath) ∧
      d.name = d'.name ∧ d.kind = d'.kind := by
  obtain ⟨e,he⟩ := hx
  have hne : s.extension ≠ "" := he ▸ e.text_ne
  have hslash : '/' ∉ s.extension.toList := he ▸ e.slash_not_mem_text
  rw [outputPath_eq_join,outputPath_eq_join,Path.join_append_eq (two_le_length_ending hne)
    (two_le_length_ending hne) (slash_not_mem_ending hn hslash) (slash_not_mem_ending hn' hslash),
    ending_inj h.named h'.named]

/-- What the prefix has behind its last slash is all that matters for the name of a file. -/
theorem exists_outputPath_eq (hx : ∃ e : Extension, s.extension = e.text) (hn : d.IsNamed) :
    ∃ directory front, s.outputPath d =
      childOf directory (fileName { s with namePrefix := front } d) := by
  obtain ⟨e,he⟩ := hx
  obtain ⟨anchor,parts,last,-,hpath⟩ := Path.ofChars_append s.namePrefix.toList
  have hname := hpath _ (two_le_length_ending (d := d) (he ▸ e.text_ne))
    (slash_not_mem_ending hn (he ▸ e.slash_not_mem_text))
  have hfile :
      String.ofList (last ++ s.ending d) =
      fileName { s with namePrefix := String.ofList last } d := by
    have htext : nameOf { s with namePrefix := String.ofList last } d =
      String.ofList last ++ d.name.getD "None" ++ Text.capitalize d.kind.text := rfl
    refine String.toList_injective ?_
    simp [fileName,htext,ending]
  rw [outputPath_eq_join,hname,hfile]
  unfold Path.join
  split
  · exact ⟨⟨anchor,parts⟩,_,rfl⟩
  · refine ⟨⟨(s.outputDirectory d.sourcePath).anchor,
      (s.outputDirectory d.sourcePath).parts ++ parts⟩,
      String.ofList last,?_⟩
    simp [childOf]

/-- The module for a definition is in some directory under a name that no index has. -/
theorem outputPath_eq_childOf (hx : ∃ e : Extension, s.extension = e.text) (hn : d.IsNamed) :
    ∃ directory name, s.outputPath d = childOf directory name ∧ name ≠ "." ∧ name ≠ ".." ∧
      name ≠ "index" ++ "." ++ s.extension := by
  obtain ⟨directory,front,hdirectory⟩ := exists_outputPath_eq hx hn
  obtain ⟨e,he⟩ := hx
  have hlong : 3 ≤ (fileName { s with namePrefix := front } d).toList.length := by
    have hstem : (nameOf { s with namePrefix := front } d).toList.length ≠ 0 := by
      simpa using nameOf_ne { s with namePrefix := front } d
    have hext : s.extension.toList.length ≠ 0 := by simpa using (he ▸ e.text_ne : s.extension ≠ "")
    simp only [fileName,String.toList_append,List.length_append,show ".".toList.length = 1 from rfl]
    omega
  have hapart : ∀ name : String, name.toList.length < 3 →
      fileName { s with namePrefix := front } d ≠ name := fun name hshort he => by
    rw [he] at hlong; omega
  exact ⟨directory,_,hdirectory,hapart "." (by decide),hapart ".." (by decide),
    fileName_ne_index _ d⟩

theorem outputPath_eq_stem (hx : ∃ e : Extension, s.extension = e.text) (hn : d.IsNamed) :
    s.outputPath d =
      childOf (s.outputPath d).parent ((s.outputPath d).stem ++ "." ++ s.extension) := by
  obtain ⟨directory,front,hdirectory⟩ := exists_outputPath_eq hx hn
  obtain ⟨e,he⟩ := hx
  rw [hdirectory,parent_childOf,fileName]
  dsimp only
  rw [stem_childOf _ (nameOf_ne _ d) (he ▸ e.text_ne) (he ▸ e.dot_not_mem_text)]

end Hook.Settings

section Templates

variable {G : Disk.Place → Prop} {d d' : Disk} {directory : Path}

theorem Template.ofFile_congr {path : Path}
    (h : ∀ bytes, d'.read path = .ok bytes ↔ d.read path = .ok bytes) :
    Template.ofFile d' path = Template.ofFile d path := by
  unfold Template.ofFile
  cases hr : d.read path with
  | ok bytes => rw [(h bytes).2 hr]
  | error fault =>
    cases hr' : d'.read path with
    | ok bytes => rw [(h bytes).1 hr'] at hr; cases hr
    | error fault' => rfl

theorem placeOf_template {name : String} {parts : List String}
    (h : Template.nameParts? name = some parts) :
    placeOf d (directory.join ⟨.here,parts⟩) = placeOf d directory ++ parts := by
  unfold Template.nameParts? at h
  dsimp only at h
  split at h
  · cases h
  · rename_i hup
    obtain rfl := Option.some.inj h
    have hdot :
        "." ∉ ((Text.splitAt '/' name.toList).filter (!Path.saysNothing ·)).map String.ofList :=
      Path.dotless_ofString name
    show lexical (d.startOf directory) (directory.parts ++ _) = _
    rw [lexical_append,lexical_names _ hdot (by simpa using hup),placeOf]

/-- Files that are neither in the template directory nor the directory itself are no templates. -/
theorem Template.load_overlaid (hl : LinkFree d.tree) (ho : Overlaid G d d')
    {templates : Option Path}
    (h : ∀ directory, templates = some directory → ∀ q, G q → ¬ placeOf d directory <+: q) :
    Template.load templates d' = Template.load templates d := by
  funext name
  unfold Template.load
  cases hn : Template.nameParts? name with
  | none => rfl
  | some parts =>
    cases templates with
    | none => rfl
    | some directory =>
      have hread : ∀ bytes, d'.read (directory.join ⟨.here,parts⟩) = .ok bytes ↔
          d.read (directory.join ⟨.here,parts⟩) = .ok bytes := fun bytes =>
        read_overlaid hl ho fun hq =>
          h directory rfl _ hq (by rw [placeOf_template hn]; exact ⟨_,rfl⟩)
      simp only [Template.ofFile_congr hread]

theorem Hook.Settings.draft_overlaid {s : Hook.Settings} (hl : LinkFree d.tree)
    (ho : Overlaid G d d')
    (h : ∀ directory, s.templates = some directory → ∀ q, G q → ¬ placeOf d directory <+: q)
    (variant : Option Variant) (definition : Descriptor) :
    s.draft d' variant definition = s.draft d variant definition := by
  unfold Hook.Settings.draft Hook.Settings.content
  rw [Template.load_overlaid hl ho h]

end Templates

end OperationHooks
