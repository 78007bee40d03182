import OperationHooks.Proofs.Yaml.Scanning
/-!
The tokens of a JSON document. Inside brackets neither columns nor indentation count; the tokens of
a document are those of its parts one after another, and the token of a key is put in front when its
colon is met.
-/
set_option autoImplicit false

namespace OperationHooks.Json

def Quotation.token (q : Quotation) : Yaml.Token :=
  match (Quotation.pieces q).mapM id with
  | some text => .scalar (String.ofList text) false
  | none => .brokenScalar

mutual

def Written.tokens : Written → List Yaml.Token
  | .word w => [.scalar (String.ofList w.text) true]
  | .number n => [.scalar (String.ofList n.text) true]
  | .quoted q => [Quotation.token q]
  | .emptyList _ => [.flowSequenceStart,.flowSequenceEnd]
  | .list items => .flowSequenceStart :: items.tokens
  | .emptyTable _ => [.flowMappingStart,.flowMappingEnd]
  | .table entries => .flowMappingStart :: entries.tokens

def Items.tokens : Items → List Yaml.Token
  | .last _ item _ => item.tokens ++ [.flowSequenceEnd]
  | .more _ item _ rest => item.tokens ++ .flowEntry :: rest.tokens

def Entries.tokens : Entries → List Yaml.Token
  | .last label value _ =>
    .key :: Quotation.token label.key :: .value :: (value.tokens ++ [.flowMappingEnd])
  | .more label value _ rest =>
    .key :: Quotation.token label.key :: .value :: (value.tokens ++ .flowEntry :: rest.tokens)

end

end OperationHooks.Json

namespace OperationHooks.Yaml

open Cursor Effect Json

namespace Scanner

variable {s s' s'' : Scan} {level : Nat} {gap rest : List Char} {ts us : List Token}

theorem goes_of_token {ch : Char} {t : Token} {action : Scanner Unit}
    {level' : Nat} {Q : Scan → Prop}
    (h : Calm level s) (hc : s.cursor.rest = gap ++ ch :: rest) (hg : IsGap gap)
    (hch : ch ≠ ' ' ∧ isBreak ch = false ∧ ch ≠ '#' ∧ ch ≠ '\uFEFF')
    (htoken : ∀ c : Cursor, c.rest = ch :: rest → token (level != 0) c = action)
    (haction : ∀ {s}, Calm level s → ∃ s', action.run s = .ok ((),s') ∧ Calm level' s' ∧ Q s' ∧
      s'.tokens = s.tokens ++ [t] ∧ s'.cursor = s.cursor.forward) :
    ∃ s', Goes level' [t] rest s s' ∧ Q s' := by
  obtain ⟨c,allowed,hpasses,hrest,-,hstep⟩ := run_step h hc hg hch
  obtain ⟨s',hrun,hcalm,hQ,htokens,hcursor⟩ := haction (h.moved c allowed)
  have hbehind :
      s'.cursor.rest = rest := by rw [hcursor]; exact (passes_forward hrest).rest_eq hrest
  refine ⟨s',⟨reaches_of_step ?_ ?_,hcalm,htokens,hbehind⟩,hQ⟩
  · exact hstep (htoken c hrest) hrun
  · rw [hbehind,hc]
    simp only [List.length_append,List.length_cons]
    omega

theorem goes_listStart (h : Calm (level + 1) s) (hc : s.cursor.rest = gap ++ '[' :: rest)
    (hg : IsGap gap) :
    ∃ s', Goes (level + 2) [.flowSequenceStart] rest s s' := by
  obtain ⟨s',hgoes,-⟩ := goes_of_token h hc hg (by decide) (fun _ => token_listStart) run_flowStart
  exact ⟨s',hgoes⟩

theorem goes_tableStart (h : Calm (level + 1) s) (hc : s.cursor.rest = gap ++ '{' :: rest)
    (hg : IsGap gap) :
    ∃ s', Goes (level + 2) [.flowMappingStart] rest s s' ∧ s'.keyAllowed = true :=
  goes_of_token h hc hg (by decide) (fun _ => token_tableStart true) run_flowStart

theorem goes_listEnd (h : Calm (level + 1) s) (hc : s.cursor.rest = gap ++ ']' :: rest)
    (hg : IsGap gap) :
    ∃ s', Goes level [.flowSequenceEnd] rest s s' := by
  obtain ⟨s',hgoes,-⟩ :=
    goes_of_token (Q := fun _ => True) h hc hg (by decide) (fun _ => token_listEnd) fun h => by
    obtain ⟨s',hrun,hcalm,htokens,hcursor⟩ := run_flowEnd h
    exact ⟨s',hrun,hcalm,trivial,htokens,hcursor⟩
  exact ⟨s',hgoes⟩

theorem goes_tableEnd (h : Calm (level + 1) s) (hc : s.cursor.rest = gap ++ '}' :: rest)
    (hg : IsGap gap) :
    ∃ s', Goes level [.flowMappingEnd] rest s s' := by
  obtain ⟨s',hgoes,-⟩ :=
    goes_of_token (Q := fun _ => True) h hc hg (by decide) (fun _ => token_tableEnd) fun h => by
    obtain ⟨s',hrun,hcalm,htokens,hcursor⟩ := run_flowEnd h
    exact ⟨s',hrun,hcalm,trivial,htokens,hcursor⟩
  exact ⟨s',hgoes⟩

theorem goes_comma (h : Calm (level + 1) s) (hc : s.cursor.rest = gap ++ ',' :: rest)
    (hg : IsGap gap) :
    ∃ s', Goes (level + 1) [.flowEntry] rest s s' ∧ s'.keyAllowed = true :=
  goes_of_token h hc hg (by decide) (fun _ => token_comma) run_comma

theorem exists_digit (n : Numeral) : ∃ ch more, n.text = ch :: more ∧ ch ∈ plainFirsts ∧
    (ch = '-' → ∃ d tail, more = d :: tail ∧ Decimal.isDigit d = true) := by
  obtain ⟨first,whole,hwhole⟩ := List.exists_cons_of_ne_nil n.some_whole
  have hdigit : Decimal.isDigit first = true :=
    List.all_eq_true.1 n.all_whole first (by simp [hwhole])
  have hbody : ∃ more, n.body = first :: more := ⟨_,by rw [Numeral.body,hwhole]; rfl⟩
  obtain ⟨more,hbody⟩ := hbody
  unfold Numeral.text
  cases n.negative with
  | true =>
    rw [if_pos rfl,hbody]
    exact ⟨'-',_,rfl,by decide,fun _ => ⟨first,more,rfl,hdigit⟩⟩
  | false =>
    rw [if_neg Bool.false_ne_true,hbody]
    refine ⟨first,more,rfl,?_,?_⟩
    · have hall :
          (numeralChars.all fun c => !Decimal.isDigit c || plainFirsts.contains c) =
          true := by decide
      have := List.all_eq_true.1 hall first (mem_numeralChars_of_isDigit hdigit)
      simpa [hdigit] using this
    · rintro rfl
      cases hdigit

theorem goes_plain {ch : Char} {more after : List Char} (h : Calm (level + 1) s)
    (hc : s.cursor.rest = gap ++ (ch :: more ++ (after ++ rest))) (hg : IsGap gap)
    (hafter : IsGap after)
    (hrest : Closes rest) (hch : ch ∈ plainFirsts)
    (hminus : ch = '-' → ∃ d tail, more = d :: tail ∧ Decimal.isDigit d = true)
    (hword : (ch :: more).all isWordChar = true) :
    ∃ s', Goes (level + 1) [.scalar (String.ofList (ch :: more)) true] rest s s' := by
  have hplain : ch ≠ ' ' ∧ isBreak ch = false ∧ ch ≠ '#' ∧ ch ≠ '\uFEFF' := by
    have hall :
        (plainFirsts.all fun ch => ch != ' ' && !isBreak ch && ch != '#' && ch != '\uFEFF') =
        true := by decide
    simpa [and_assoc] using List.all_eq_true.1 hall ch hch
  have hhead : s.cursor.rest = gap ++ ch :: (more ++ (after ++ rest)) := hc
  obtain ⟨c,allowed,hpasses,hstart,-,hstep⟩ := run_step h hhead hg hplain
  obtain ⟨next,tail,htail⟩ : ∃ next tail, more ++ (after ++ rest) = next :: tail := by
    obtain ⟨closing,tail,rfl,-⟩ := hrest
    exact List.exists_cons_of_ne_nil (by simp)
  have htoken : token true c = plainScalar := by
    refine token_plain (hstart.trans (congrArg _ htail)) hch fun heq => ?_
    obtain ⟨d,digits,rfl,hd⟩ := hminus heq
    obtain ⟨rfl,-⟩ := List.cons.inj htail
    exact hd
  have hcalm := h.moved c allowed
  have hpiece : (moved s c allowed).cursor.rest = ch :: more ++ (after ++ rest) := hstart
  obtain ⟨broke,last,hfind,hlast⟩ := exists_plainFrom ((moved s c allowed).indent + 1) hpiece
    (List.cons_ne_nil _ _)
    hword hafter hrest (moved s c allowed).cursor.rest.length
  obtain ⟨s',hrun,hcalm',htokens,hcursor⟩ := run_plainScalar hcalm hfind
  have hbehind : s'.cursor.rest = rest := by
    rw [hcursor]
    exact hlast.rest_eq (by rw [List.append_assoc]; exact hstart)
  refine ⟨s',reaches_of_step ?_ ?_,hcalm',htokens,hbehind⟩
  · exact hstep htoken hrun
  · rw [hbehind,hc]
    simp only [List.length_append,List.length_cons]
    omega

theorem run_quotedScalar {q : Quotation} {c : Cursor} (hc : c.rest = Quotation.text q ++ rest)
    (hplain : Quotation.isPlain q = true) : ∃ last, Passes (Quotation.text q) c last ∧
      ∀ s : Scan, (quotedScalar true c).run s = .ok ((Quotation.token q,last),s) := by
  have hquote : c.rest = '"' :: (Quotation.inner q ++ '"' :: rest) := by
    rw [hc,Quotation.text,List.cons_append,List.append_assoc]
    rfl
  have hforward := passes_forward hquote
  have hinner := hforward.rest_eq hquote
  have hle : q.length < c.rest.length + 1 := by
    have hlen : q.length ≤ (Quotation.inner q).length := by
      clear hc hplain hquote hforward hinner
      induction q with
      | nil => exact Nat.zero_le _
      | cons p q ih =>
        have hp : 1 ≤ p.text.length := by cases p <;> simp [Part.text]
        simp only [Quotation.inner_cons,List.length_append,List.length_cons]
        omega
    rw [hquote]
    simp only [List.length_append,List.length_cons]
    omega
  obtain ⟨last,hfound,hlast⟩ := exists_quotedFrom q hplain _ c.forward hle hinner
  refine ⟨last,hforward.trans hlast,fun s => ?_⟩
  have hlift :
      StateT.run (liftM (quotedFrom true (c.rest.length + 1) c.forward) :
        Scanner (Pieces × Cursor)) s =
      .ok ((Quotation.pieces q,last),s) := by
    rw [hfound]
    rfl
  unfold quotedScalar Quotation.token
  rw [run_bind_of_ok hlift]
  dsimp only
  cases (Quotation.pieces q).mapM id <;> rfl

theorem goes_quotation {q : Quotation} (h : Calm (level + 1) s)
    (hc : s.cursor.rest = gap ++ (Quotation.text q ++ rest)) (hg : IsGap gap)
    (hplain : Quotation.isPlain q = true) :
    ∃ s', Goes (level + 1) [Quotation.token q] rest s s' ∧
      (s.keyAllowed = true → ∃ (c : Cursor) (k : KeyCandidate),
      Passes (Quotation.text q) c s'.cursor ∧ s'.candidates.lookup (level + 1) = some k ∧
        k.tokenNumber = s.tokens.length ∧ k.index = c.index ∧ k.line = c.line) := by
  have hhead : s.cursor.rest = gap ++ '"' :: (Quotation.inner q ++ ['"'] ++ rest) := hc
  obtain ⟨c,allowed,hpasses,hstart,hallowed,hstep⟩ := run_step h hhead hg (by decide)
  have htext : c.rest = Quotation.text q ++ rest := hstart
  obtain ⟨last,hlast,hfind⟩ := run_quotedScalar htext hplain
  obtain ⟨s',hrun,hcalm,htokens,hcursor,hkey⟩ :=
    run_keyLike (h.moved c allowed) fun s' _ => hfind s'
  have hbehind : s'.cursor.rest = rest := by rw [hcursor]; exact hlast.rest_eq hstart
  refine ⟨s',⟨reaches_of_step ?_ ?_,hcalm,htokens,hbehind⟩,fun hk => ?_⟩
  · exact hstep (token_quote hstart) hrun
  · rw [hbehind,hc]
    simp only [Quotation.text,List.length_append,List.length_cons]
    omega
  · exact ⟨c,_,by rwa [hcursor],hkey (hallowed hk),rfl,rfl,rfl⟩

theorem lookup_filter {α β : Type} [BEq α] [LawfulBEq α] {test : α × β → Bool} {key : α} {value : β}
    {pairs : List (α × β)} (h : pairs.lookup key = some value) (htest : test (key,value) = true) :
    (pairs.filter test).lookup key = some value := by
  obtain ⟨before,after,rfl,hbefore⟩ := List.lookup_eq_some_iff.1 h
  refine List.lookup_eq_some_iff.2 ⟨before.filter test,after.filter test,?_,fun pair hpair => ?_⟩
  · rw [List.filter_append,List.filter_cons_of_pos htest]
  · exact hbefore pair (List.mem_filter.1 hpair).1

theorem isBreak_text {q : Quotation} (hplain : Quotation.isPlain q = true) :
    ∀ ch ∈ Quotation.text q, isBreak ch = false := by
  intro ch hch
  rcases mem_text hch with ⟨hlow,hhigh⟩ | ⟨h,hp⟩
  · simp only [isBreak,Bool.or_eq_false_iff,beq_eq_false_iff_ne]
    refine ⟨⟨⟨⟨?_,?_⟩,?_⟩,?_⟩,?_⟩ <;> rintro rfl
    · exact absurd hlow (by decide)
    · exact absurd hlow (by decide)
    · exact absurd hhigh (by decide)
    · exact absurd hhigh (by decide)
    · exact absurd hhigh (by decide)
  · have hpart := List.all_eq_true.1 hplain _ hp
    simp only [Part.isPlain,Bool.and_eq_true,Bool.not_eq_true'] at hpart
    exact hpart.2

/-- A key and its colon in brackets. The token that makes a key of the string is put in front of it.
-/
theorem goes_label {l : Label} (h : Calm (level + 1) s) (hallowed : s.keyAllowed = true)
    (hc : s.cursor.rest = l.spell Gap.lines ++ rest) (hplain : l.isPlain = true) :
    ∃ s', Goes (level + 1) [.key,Quotation.token l.key,.value]
      (l.behindColon.lines ++ rest) s s' := by
  obtain ⟨hbefore,hkey,hbehind,hcolon,hdistance⟩ := Label.isPlain_iff.1 hplain
  obtain ⟨hlines,hspaces⟩ := Gap.lines_of_isInLine hbehind
  have hc' : s.cursor.rest = l.before.lines ++
      (Quotation.text l.key ++ (l.behindKey.lines ++ ':' :: (l.behindColon.lines ++ rest))) := by
    rw [hc,Label.spell]
    simp only [List.append_assoc,List.cons_append]
  obtain ⟨s₁,hgoes,hcandidate⟩ := goes_quotation h hc' (Gap.isGap_lines hbefore) hkey
  obtain ⟨c,k,hpasses,hlookup,hnumber,hindex,hline⟩ := hcandidate hallowed
  obtain ⟨c',allowed,hpasses',hstart,-,hstep⟩ :=
    run_step hgoes.calm hgoes.rest (fun ch hch => .inl (hspaces ch hch)) (by decide)
  have hstale : isStale c' k = false := by
    have hway := hpasses.trans hpasses'
    have hsame : c'.line = c.line := hway.line fun ch hch => by
      rcases List.mem_append.1 hch with hch | hch
      · exact isBreak_text hkey ch hch
      · rw [hspaces ch hch]
        decide
    have hindex' := hway.index
    rw [List.length_append,hlines] at hindex'
    rw [maxKeyDistance] at hdistance
    simp only [isStale,Bool.or_eq_false_iff,bne_eq_false_iff_eq,decide_eq_false_iff_not,
      hline,hsame,true_and]
    omega
  have hlookup' : (moved s₁ c' allowed).candidates.lookup (level + 1) = some k :=
    lookup_filter hlookup (by simp [hstale])
  obtain ⟨s₂,hrun,hcalm,htokens,hcursor⟩ := run_value (hgoes.calm.moved c' allowed) hlookup'
  have hrest : s₂.cursor.rest = l.behindColon.lines ++ rest := by
    rw [hcursor]
    exact (passes_forward hstart).rest_eq hstart
  refine ⟨s₂,hgoes.reaches.trans (reaches_of_step ?_ ?_),hcalm,?_,hrest⟩
  · exact hstep (token_colon hstart) hrun
  · rw [hrest,hgoes.rest]
    simp only [List.length_append,List.length_cons]
    omega
  · have hmoved : (moved s₁ c' allowed).tokens = s.tokens ++ [Quotation.token l.key] := hgoes.tokens
    rw [htokens,hmoved,hnumber,List.take_left,List.drop_left,List.append_assoc]
    rfl

theorem closes_of {c : Char} (h : c = ',' ∨ c = ']' ∨ c = '}') (rest : List Char) :
    Closes (c :: rest) :=
  ⟨c,rest,rfl,h⟩

mutual

theorem goes_written (w : Written) (hplain : w.isPlain = true) {level : Nat} {s : Scan}
    {gap after rest : List Char}
    (h : Calm (level + 1) s) (hc : s.cursor.rest = gap ++ (w.spell Gap.lines ++ (after ++ rest)))
    (hg : IsGap gap)
    (hafter : IsGap after) (hrest : Closes rest) :
    ∃ s' left, IsGap left ∧ Goes (level + 1) w.tokens (left ++ rest) s s' := by
  match w with
  | .word w =>
    obtain ⟨ch,more,htext,hch,hne⟩ : ∃ ch more, w.text = ch :: more ∧
      ch ∈ plainFirsts ∧ ch ≠ '-' := by
      cases w <;> exact ⟨_,_,rfl,by decide,by decide⟩
    simp only [Written.spell,htext] at hc
    have hword : (ch :: more).all isWordChar = true := by
      rw [← htext]
      exact List.all_eq_true.2 (w.all_text (by decide))
    obtain ⟨s',hgoes⟩ := goes_plain h hc hg hafter hrest hch (fun heq => absurd heq hne) hword
    refine ⟨s',[],by simp [IsGap],?_⟩
    rwa [Written.tokens,htext]
  | .number n =>
    obtain ⟨ch,more,htext,hch,hminus⟩ : ∃ ch more, n.text = ch :: more ∧ ch ∈ plainFirsts ∧
        (ch = '-' → ∃ d tail, more = d :: tail ∧ Decimal.isDigit d = true) := exists_digit n
    simp only [Written.spell,htext] at hc
    have hword : (ch :: more).all isWordChar = true := by
      rw [← htext]
      exact List.all_eq_true.2 (n.all_text (by decide))
    obtain ⟨s',hgoes⟩ := goes_plain h hc hg hafter hrest hch hminus hword
    refine ⟨s',[],by simp [IsGap],?_⟩
    rwa [Written.tokens,htext]
  | .quoted q =>
    simp only [Written.spell,Written.isPlain] at hc hplain
    obtain ⟨s',hgoes,-⟩ := goes_quotation h hc hg hplain
    exact ⟨s',after,hafter,by rwa [Written.tokens]⟩
  | .emptyList gap' =>
    simp only [Written.spell,Written.isPlain,List.cons_append,List.append_assoc,List.nil_append]
      at hc hplain
    obtain ⟨s₁,hopen⟩ := goes_listStart h hc hg
    obtain ⟨s₂,hclose⟩ := goes_listEnd hopen.calm hopen.rest (Gap.isGap_lines hplain)
    exact ⟨s₂,after,hafter,by rw [Written.tokens]; exact hopen.trans hclose⟩
  | .emptyTable gap' =>
    simp only [Written.spell,Written.isPlain,List.cons_append,List.append_assoc,List.nil_append]
      at hc hplain
    obtain ⟨s₁,hopen,-⟩ := goes_tableStart h hc hg
    obtain ⟨s₂,hclose⟩ := goes_tableEnd hopen.calm hopen.rest (Gap.isGap_lines hplain)
    exact ⟨s₂,after,hafter,by rw [Written.tokens]; exact hopen.trans hclose⟩
  | .list items =>
    simp only [Written.spell,Written.isPlain,List.cons_append] at hc hplain
    obtain ⟨s₁,hopen⟩ := goes_listStart h hc hg
    obtain ⟨s₂,hitems⟩ := goes_items items hplain hopen.calm hopen.rest
    exact ⟨s₂,after,hafter,by rw [Written.tokens]; exact hopen.trans hitems⟩
  | .table entries =>
    simp only [Written.spell,Written.isPlain,List.cons_append] at hc hplain
    obtain ⟨s₁,hopen,hallowed⟩ := goes_tableStart h hc hg
    obtain ⟨s₂,hentries⟩ := goes_entries entries hplain hopen.calm hallowed hopen.rest
    exact ⟨s₂,after,hafter,by rw [Written.tokens]; exact hopen.trans hentries⟩

theorem goes_items (items : Items) (hplain : items.isPlain = true) {level : Nat} {s : Scan}
    {rest : List Char}
    (h : Calm (level + 1) s) (hc : s.cursor.rest = items.spell Gap.lines ++ rest) :
    ∃ s', Goes level items.tokens rest s s' := by
  match items with
  | .last before item after =>
    simp only [Items.spell,Items.isPlain,List.append_assoc,List.singleton_append,Bool.and_eq_true]
      at hc hplain
    obtain ⟨s₁,left,hleft,hitem⟩ := goes_written item hplain.1.2 h hc (Gap.isGap_lines hplain.1.1)
      (Gap.isGap_lines hplain.2) (closes_of (.inr (.inl rfl)) _)
    obtain ⟨s₂,hclose⟩ := goes_listEnd hitem.calm hitem.rest hleft
    exact ⟨s₂,by rw [Items.tokens]; exact hitem.trans hclose⟩
  | .more before item after more =>
    simp only [Items.spell,Items.isPlain,List.append_assoc,List.cons_append,Bool.and_eq_true]
      at hc hplain
    obtain ⟨s₁,left,hleft,hitem⟩ := goes_written item hplain.1.1.2 h hc
      (Gap.isGap_lines hplain.1.1.1)
      (Gap.isGap_lines hplain.1.2) (closes_of (.inl rfl) _)
    obtain ⟨s₂,hcomma,-⟩ := goes_comma hitem.calm hitem.rest hleft
    obtain ⟨s₃,hmore⟩ := goes_items more hplain.2 hcomma.calm hcomma.rest
    exact ⟨s₃,by rw [Items.tokens]; exact hitem.trans (hcomma.trans hmore)⟩

theorem goes_entries (entries : Entries) (hplain : entries.isPlain = true) {level : Nat} {s : Scan}
    {rest : List Char}
    (h : Calm (level + 1) s) (hallowed : s.keyAllowed = true)
    (hc : s.cursor.rest = entries.spell Gap.lines ++ rest) :
      ∃ s', Goes level entries.tokens rest s s' := by
  match entries with
  | .last label value after =>
    simp only [Entries.spell,Entries.isPlain,List.append_assoc,List.singleton_append,
      Bool.and_eq_true] at hc hplain
    obtain ⟨s₁,hlabel⟩ := goes_label h hallowed hc hplain.1.1
    obtain ⟨s₂,left,hleft,hvalue⟩ := goes_written value hplain.1.2 hlabel.calm hlabel.rest
      (Gap.isGap_lines (Label.isPlain_iff.1 hplain.1.1).2.2.2.1) (Gap.isGap_lines hplain.2)
      (closes_of (.inr (.inr rfl)) _)
    obtain ⟨s₃,hclose⟩ := goes_tableEnd hvalue.calm hvalue.rest hleft
    exact ⟨s₃,by rw [Entries.tokens]; exact hlabel.trans (hvalue.trans hclose)⟩
  | .more label value after more =>
    simp only [Entries.spell,Entries.isPlain,List.append_assoc,List.cons_append,Bool.and_eq_true]
      at hc hplain
    obtain ⟨s₁,hlabel⟩ := goes_label h hallowed hc hplain.1.1.1
    obtain ⟨s₂,left,hleft,hvalue⟩ := goes_written value hplain.1.1.2 hlabel.calm hlabel.rest
      (Gap.isGap_lines (Label.isPlain_iff.1 hplain.1.1.1).2.2.2.1) (Gap.isGap_lines hplain.1.2)
      (closes_of (.inl rfl) _)
    obtain ⟨s₃,hcomma,hallowed'⟩ := goes_comma hvalue.calm hvalue.rest hleft
    obtain ⟨s₄,hmore⟩ := goes_entries more hplain.2 hcomma.calm hallowed' hcomma.rest
    exact ⟨s₄,by rw [Entries.tokens]; exact hlabel.trans (hvalue.trans (hcomma.trans hmore))⟩

end

/-- At the end of a text nothing is open that has to be closed. -/
theorem exists_last (h : Calm 0 s) (hc : s.cursor.rest = gap) (hg : IsGap gap) :
    ∃ last, step.run s = .ok (false,last) ∧ last.tokens = s.tokens := by
  have hend' : s.cursor.rest = gap ++ [] := by rw [hc,List.append_nil]
  obtain ⟨c,allowed,hnext,hpasses,-⟩ :=
    run_toNextToken hend' hg (fun _ hd => nomatch hd) (fun _ hd => nomatch hd)
  have hdrop :
      dropStale.run { s with cursor := c, keyAllowed := allowed } = .ok ((),moved s c allowed) :=
    run_dropStale (s := { s with cursor := c, keyAllowed := allowed }) h.free
  have hcalm := h.moved c allowed
  have hend : c.atEnd = true := by
    rw [atEnd,hpasses.rest_eq hend']
    rfl
  refine ⟨{ moved s c allowed with
    candidates := (moved s c allowed).candidates.filter (·.1 != (moved s c allowed).flowLevel) },?_,
      rfl⟩
  unfold step
  rw [run_bind_of_ok hnext,run_bind_of_ok hdrop,run_get_bind]
  change StateT.run (unwind c.column >>= _) (moved s c allowed) = _
  rw [run_bind_of_ok (run_unwind hcalm _)]
  change StateT.run (if c.atEnd then _ else _) (moved s c allowed) = _
  rw [hend,if_pos rfl,run_bind_of_ok (run_unwind hcalm _),
    run_bind_of_ok (run_dropCandidate hcalm.free)]
  rfl

theorem all_of_goes {length : Nat} (h : Goes 0 ts gap s s') (hg : IsGap gap) (hs : s.tokens = [])
    (hlength : s.cursor.rest.length = length) : all (length + 1) s = ts := by
  subst hlength
  obtain ⟨steps,hsteps,hall⟩ := h.reaches
  obtain ⟨last,hlast,htokens⟩ := exists_last h.calm h.rest hg
  obtain ⟨fuel,hfuel⟩ : ∃ fuel, s.cursor.rest.length + 1 = fuel + 1 + steps :=
    ⟨s.cursor.rest.length - steps,by omega⟩
  rw [hfuel,hall,all_succ,hlast]
  dsimp only
  rw [htokens,h.tokens,hs,List.nil_append]

end Scanner

theorem isPrintable_of_gap {gap : List Char} (h : IsGap gap) : gap.all isPrintable = true :=
  List.all_eq_true.2 fun c hc => by rcases h c hc with rfl | rfl <;> decide

theorem isPrintable_text {q : Quotation} (hplain : Quotation.isPlain q = true) :
    (Quotation.text q).all isPrintable = true := by
  refine List.all_eq_true.2 fun c hc => ?_
  rcases mem_text hc with ⟨hlow,hhigh⟩ | ⟨h,hp⟩
  · have hrange : 0x20 ≤ c.toNat ∧ c.toNat ≤ 0x7E := ⟨hlow,by omega⟩
    simp [isPrintable,hrange]
  · have hpart := List.all_eq_true.1 hplain _ hp
    simp only [Part.isPlain,Bool.and_eq_true] at hpart
    exact hpart.1

theorem isPrintable_label {l : Label} (h : l.isPlain = true) :
    (l.spell Gap.lines).all isPrintable = true := by
  obtain ⟨hbefore,hkey,hbehind,hcolon,-⟩ := Label.isPlain_iff.1 h
  have hspaces : IsGap l.behindKey.lines :=
    fun c hc => .inl ((Gap.lines_of_isInLine hbehind).2 c hc)
  simp only [Label.spell,List.all_append,List.all_cons,Bool.and_eq_true]
  exact ⟨⟨⟨isPrintable_of_gap (Gap.isGap_lines hbefore),isPrintable_text hkey⟩,
    isPrintable_of_gap hspaces⟩,by decide,
    isPrintable_of_gap (Gap.isGap_lines hcolon)⟩

mutual

theorem isPrintable_written (w : Written) (h : w.isPlain = true) :
    (w.spell Gap.lines).all isPrintable = true := by
  match w with
  | .word w =>
    simp only [Written.spell]
    exact List.all_eq_true.2 (w.all_text (by decide))
  | .number n =>
    simp only [Written.spell]
    exact List.all_eq_true.2 (n.all_text (by decide))
  | .quoted q =>
    simp only [Written.spell,Written.isPlain] at h ⊢
    exact isPrintable_text h
  | .emptyList gap | .emptyTable gap =>
    simp only [Written.isPlain] at h
    have hgap := isPrintable_of_gap (Gap.isGap_lines h)
    simp only [Written.spell,List.all_cons,List.all_append,hgap]
    decide
  | .list items =>
    simp only [Written.isPlain] at h
    simp only [Written.spell,List.all_cons,isPrintable_items items h]
    decide
  | .table entries =>
    simp only [Written.isPlain] at h
    simp only [Written.spell,List.all_cons,isPrintable_entries entries h]
    decide

theorem isPrintable_items (items : Items) (h : items.isPlain = true) :
    (items.spell Gap.lines).all isPrintable = true := by
  match items with
  | .last before item after =>
    simp only [Items.isPlain,Bool.and_eq_true] at h
    simp only [Items.spell,List.all_append,List.all_cons,isPrintable_of_gap (Gap.isGap_lines h.1.1),
      isPrintable_written item h.1.2,isPrintable_of_gap (Gap.isGap_lines h.2)]
    decide
  | .more before item after more =>
    simp only [Items.isPlain,Bool.and_eq_true] at h
    simp only [Items.spell,List.all_append,List.all_cons,
      isPrintable_of_gap (Gap.isGap_lines h.1.1.1),
      isPrintable_written item h.1.1.2,isPrintable_of_gap (Gap.isGap_lines h.1.2),
        isPrintable_items more h.2]
    decide

theorem isPrintable_entries (entries : Entries) (h : entries.isPlain = true) :
    (entries.spell Gap.lines).all isPrintable = true := by
  match entries with
  | .last label value after =>
    simp only [Entries.isPlain,Bool.and_eq_true] at h
    simp only [Entries.spell,List.all_append,List.all_cons,isPrintable_label h.1.1,
      isPrintable_written value h.1.2,
      isPrintable_of_gap (Gap.isGap_lines h.2)]
    decide
  | .more label value after more =>
    simp only [Entries.isPlain,Bool.and_eq_true] at h
    simp only [Entries.spell,List.all_append,List.all_cons,isPrintable_label h.1.1.1,
      isPrintable_written value h.1.1.2,
      isPrintable_of_gap (Gap.isGap_lines h.1.2),isPrintable_entries more h.2]
    decide

end

/-- A document whose value is a table. -/
def isTable : Written → Bool
  | .emptyTable _ | .table _ => true
  | _ => false

open Scanner in
/-- A plain document of a table has the tokens of its value. -/
theorem tokens_spell {w : Json.Document} (hbefore : w.before.isPlain = true)
    (hvalue : w.value.isPlain = true)
    (hafter : w.after.isPlain = true) (htable : isTable w.value = true) :
    tokens (w.spell Gap.lines) = w.value.tokens := by
  have hprintable : (w.spell Gap.lines).all isPrintable = true := by
    simp only [Json.Document.spell,List.all_append,isPrintable_of_gap (Gap.isGap_lines hbefore),
      isPrintable_written w.value hvalue,isPrintable_of_gap (Gap.isGap_lines hafter)]
    decide
  have hcalm : Calm 0 ⟨.start (w.spell Gap.lines),[],0,-1,[],true,[]⟩ := ⟨rfl,by simp,rfl,rfl⟩
  obtain ⟨s',hgoes⟩ : ∃ s', Goes 0 w.value.tokens w.after.lines
      ⟨.start (w.spell Gap.lines),[],0,-1,[],true,[]⟩ s' := by
    have hstart : ∀ rest, w.spell Gap.lines = w.before.lines ++ '{' :: rest → ∃ s',
        Goes 1 [.flowMappingStart] rest ⟨.start (w.spell Gap.lines),[],0,-1,[],true,[]⟩ s' ∧
        s'.keyAllowed = true :=
      fun rest hrest => goes_of_token hcalm hrest (Gap.isGap_lines hbefore) (by decide)
        (fun _ => token_tableStart false) run_flowStart
    cases hw : w.value with
    | word _ | number _ | quoted _ | emptyList _ | list _ => rw [hw] at htable; cases htable
    | emptyTable gap =>
      rw [hw,Written.isPlain] at hvalue
      obtain ⟨s₁,hopen,-⟩ := hstart (gap.lines ++ '}' :: w.after.lines) (by
        rw [Json.Document.spell,hw,Written.spell]
        simp only [List.append_assoc,List.cons_append,List.nil_append])
      obtain ⟨s₂,hclose⟩ := goes_tableEnd hopen.calm hopen.rest (Gap.isGap_lines hvalue)
      exact ⟨s₂,by rw [Written.tokens]; exact hopen.trans hclose⟩
    | table entries =>
      rw [hw,Written.isPlain] at hvalue
      obtain ⟨s₁,hopen,hallowed⟩ := hstart (entries.spell Gap.lines ++ w.after.lines) (by
        rw [Json.Document.spell,hw,Written.spell]
        simp only [List.append_assoc,List.cons_append])
      obtain ⟨s₂,hentries⟩ := goes_entries entries hvalue hopen.calm hallowed hopen.rest
      exact ⟨s₂,by rw [Written.tokens]; exact hopen.trans hentries⟩
  rw [tokens,if_neg (by simp [hprintable])]
  exact all_of_goes hgoes (Gap.isGap_lines hafter) rfl rfl

end OperationHooks.Yaml
