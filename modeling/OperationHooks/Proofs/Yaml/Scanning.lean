import OperationHooks.Proofs.Effect.Keeping
import OperationHooks.Proofs.Json.Plain
import OperationHooks.Yaml.Lexer
/-!
The steps of the scanner where no block is open. A step passes a gap, gives up the keys that come
too late and does what the character behind the gap asks for; what each token leaves is said here
once.
-/
set_option autoImplicit false

namespace OperationHooks.Yaml

open Cursor Effect Json

namespace Scanner

variable {s s' s'' : Scan} {level : Nat} {gap rest : List Char} {ts us : List Token}

/-- From one state the scanner gets to another one, with a character for each step. -/
def Reaches (s s' : Scan) : Prop :=
  ∃ steps, steps + s'.cursor.rest.length ≤ s.cursor.rest.length ∧
  ∀ fuel, all (fuel + steps) s = all fuel s'

theorem Reaches.refl (s : Scan) : Reaches s s := ⟨0,by simp,fun _ => rfl⟩

theorem Reaches.trans (h : Reaches s s') (h' : Reaches s' s'') : Reaches s s'' := by
  obtain ⟨m,hm,hall⟩ := h
  obtain ⟨n,hn,hall'⟩ := h'
  exact ⟨n + m,by omega,fun fuel => by rw [← Nat.add_assoc,hall,hall']⟩

theorem all_succ (fuel : Nat) (s : Scan) : all (fuel + 1) s =
    match step.run s with
    | .error fault => settled s ++ [.unreadable fault]
    | .ok (true,next) => all fuel next
    | .ok (false,last) => last.tokens := by rfl

theorem all_of_step (h : step.run s = .ok (true,s')) (fuel : Nat) :
    all (fuel + 1) s = all fuel s' := by
  rw [all_succ]
  simp only [h]

theorem reaches_of_step (h : step.run s = .ok (true,s'))
    (hlt : s'.cursor.rest.length < s.cursor.rest.length) :
    Reaches s s' := by
  have hone : 1 + s'.cursor.rest.length ≤ s.cursor.rest.length := by rw [Nat.add_comm]; exact hlt
  exact ⟨1,hone,all_of_step h⟩

structure Calm (level : Nat) (s : Scan) : Prop where
  level : s.flowLevel = level
  free : ∀ k ∈ s.candidates, k.2.required = false
  indent : s.indent = -1
  flat : s.indents = []

/-- The scanner finds tokens and gets to a level of brackets in front of the rest of the text. -/
structure Goes (level : Nat) (ts : List Token) (rest : List Char) (s s' : Scan) : Prop where
  reaches : Reaches s s'
  calm : Calm level s'
  tokens : s'.tokens = s.tokens ++ ts
  rest : s'.cursor.rest = rest

theorem Goes.trans {rest' : List Char} {level' : Nat} (h : Goes level ts rest s s')
    (h' : Goes level' us rest' s' s'') : Goes level' (ts ++ us) rest' s s'' :=
  ⟨h.reaches.trans h'.reaches,h'.calm,by rw [h'.tokens,h.tokens,List.append_assoc],h'.rest⟩

theorem exists_skipBetween (flow : Bool) (fuel : Nat) :
    ∀ (allowed : Bool) (c : Cursor) (gap : List Char),
    gap.length < fuel → c.rest = gap ++ rest → IsGap gap → Stops rest →
    ∃ c' allowed', skipBetween flow allowed fuel c = (c',allowed') ∧ Passes gap c c' ∧
      (allowed = true → allowed' = true) := by
  induction fuel with
  | zero => intro _ _ _ h; cases h
  | succ fuel ih =>
    intro allowed c gap hf hc hg hrest
    obtain ⟨spaces,more,rfl,hspaces,hmore⟩ := hg.split
    have hc' : c.rest = spaces ++ (more ++ rest) := by rw [hc,List.append_assoc]
    have hskip := passes_skip spaces c hc'
    have hwhile : c.skipWhile (· == ' ') = c.skip spaces.length :=
      skipWhile_eq hc' hspaces (head?_spaces_stop hmore hrest)
    have hbehind := hskip.rest_eq hc'
    generalize c.skip spaces.length = after at hskip hwhile hbehind
    rcases hmore with rfl | ⟨gap',rfl,hg'⟩
    · obtain ⟨hbreak,hhash,-⟩ := Stops.peek (c := after) (by rw [hbehind]; exact hrest)
      refine ⟨after,allowed,?_,by simpa using hskip,id⟩
      simp [skipBetween,hwhile,hbreak,hhash]
    · have hpeek : after.peek 0 = '\n' := peek_zero hbehind
      have hforward := passes_forward hbehind
      obtain ⟨c',allowed',hnext,hpasses,hallowed⟩ := ih (allowed || !flow) after.forward gap'
        (by simp at hf; omega) (hforward.rest_eq hbehind) hg' hrest
      refine ⟨c',allowed',?_,((hskip.trans hforward).trans hpasses).of_eq (by simp),
        fun h => hallowed (by simp [h])⟩
      rw [skipBetween,hwhile]
      simpa [hpeek,isBreak,lineBreak_newline hbehind] using hnext

theorem run_toNextToken (hc : s.cursor.rest = gap ++ rest) (hg : IsGap gap) (hrest : Stops rest)
    (hmark : ∀ ch ∈ rest.head?, ch ≠ '\uFEFF') : ∃ c allowed, toNextToken.run s =
      .ok ((),{ s with cursor := c, keyAllowed := allowed }) ∧ Passes gap s.cursor c ∧
        (s.keyAllowed = true → allowed = true) := by
  have hpeek : s.cursor.peek 0 ≠ '\uFEFF' := by
    cases gap with
    | nil =>
      cases rest with
      | nil =>
        have : s.cursor.peek 0 = '\x00' := by rw [Cursor.peek,hc]; rfl
        rw [this]
        decide
      | cons ch rest =>
        have hhead : s.cursor.rest = ch :: rest := hc
        rw [peek_zero hhead]
        exact hmark ch rfl
    | cons g gap =>
      have hhead : s.cursor.rest = g :: (gap ++ rest) := hc
      rw [peek_zero hhead]
      rcases hg g List.mem_cons_self with rfl | rfl <;> decide
  obtain ⟨c,allowed,hskip,hpasses,hallowed⟩ := exists_skipBetween (s.flowLevel != 0)
    (s.cursor.rest.length + 1)
    s.keyAllowed s.cursor gap (by rw [hc,List.length_append]; omega) hc hg hrest
  refine ⟨c,allowed,?_,hpasses,hallowed⟩
  have hcursor :
      (if (s.cursor.index == 0 && s.cursor.peek 0 == '\uFEFF') = true then s.cursor.forward
      else s.cursor) = s.cursor := if_neg (by simp [hpeek])
  unfold toNextToken
  simp only [StateT.run_bind,StateT.run_get,pure_bind,hcursor,hskip]
  rfl

theorem run_dropStale (h : ∀ k ∈ s.candidates, k.2.required = false) : dropStale.run s =
    .ok ((),{ s with candidates := s.candidates.filter (!isStale s.cursor ·.2) }) := by
  have hnone : ((s.candidates.filter (isStale s.cursor ·.2)).any (·.2.required)) = false := by
    rw [List.any_eq_false]
    intro k hk
    rw [h k (List.mem_filter.1 hk).1]
    exact Bool.false_ne_true
  unfold dropStale
  simp [StateT.run_bind,hnone]
  rfl

theorem run_dropCandidate (h : ∀ k ∈ s.candidates, k.2.required = false) : dropCandidate.run s =
    .ok ((),{ s with candidates := s.candidates.filter (·.1 != s.flowLevel) }) := by
  unfold dropCandidate
  simp only [StateT.run_bind,StateT.run_get,pure_bind]
  cases hk : s.candidates.lookup s.flowLevel with
  | none => rfl
  | some k =>
    obtain ⟨before,after,hsplit,-⟩ := List.lookup_eq_some_iff.1 hk
    have hfree : k.required = false := h (s.flowLevel,k) (by rw [hsplit]; simp)
    simp only [hfree]
    rfl

/-- No block is closed, in brackets or where there is none. -/
theorem run_unwind (h : Calm level s) (column : Int) : (unwind column).run s = .ok ((),s) := by
  have hsame : { s with indents := [], indent := -1, tokens := s.tokens ++ [] } = s := by
    rw [← h.flat,← h.indent,List.append_nil]
  unfold unwind
  rw [run_get_bind]
  by_cases hlevel : s.flowLevel = 0
  · rw [if_pos (by simpa using hlevel),h.flat,h.indent]
    exact congrArg (fun s => Except.ok ((),s)) hsame
  · rw [if_neg (by simpa using hlevel)]
    rfl

def moved (s : Scan) (c : Cursor) (allowed : Bool) : Scan :=
  { s with cursor := c, keyAllowed := allowed, candidates := s.candidates.filter (!isStale c ·.2) }

theorem Calm.moved (h : Calm level s) (c : Cursor) (allowed : Bool) :
    Calm level (moved s c allowed) :=
  ⟨h.level,fun k hk => h.free k (List.mem_filter.1 hk).1,h.indent,h.flat⟩

theorem run_step {ch : Char} (h : Calm level s)
    (hc : s.cursor.rest = gap ++ ch :: rest) (hg : IsGap gap)
    (hch : ch ≠ ' ' ∧ isBreak ch = false ∧ ch ≠ '#' ∧ ch ≠ '\uFEFF') :
    ∃ c allowed, Passes gap s.cursor c ∧ c.rest = ch :: rest ∧
      (s.keyAllowed = true → allowed = true) ∧
      ∀ {action : Scanner Unit} {s' : Scan}, token (level != 0) c = action →
        action.run (moved s c allowed) = .ok ((),s') → step.run s = .ok (true,s') := by
  have hstops : Stops (ch :: rest) := by
    intro d hd
    obtain rfl : ch = d := Option.some.inj hd
    exact ⟨hch.1,hch.2.1,hch.2.2.1⟩
  have hmark : ∀ d ∈ (ch :: rest).head?, d ≠ '\uFEFF' := by
    intro d hd
    obtain rfl : ch = d := Option.some.inj hd
    exact hch.2.2.2
  obtain ⟨c,allowed,hnext,hpasses,hallowed⟩ := run_toNextToken hc hg hstops hmark
  have hrest : c.rest = ch :: rest := hpasses.rest_eq hc
  refine ⟨c,allowed,hpasses,hrest,hallowed,?_⟩
  rintro action s' rfl hrun
  have hdrop :
      dropStale.run { s with cursor := c, keyAllowed := allowed } = .ok ((),moved s c allowed) :=
    run_dropStale (s := { s with cursor := c, keyAllowed := allowed }) h.free
  have hend : c.atEnd = false := by rw [atEnd,hrest]; rfl
  have hflow : inFlow.run (moved s c allowed) = .ok (level != 0,moved s c allowed) := by
    rw [← (h.moved c allowed).level]
    rfl
  unfold step
  rw [run_bind_of_ok hnext,run_bind_of_ok hdrop,run_get_bind]
  change StateT.run (unwind c.column >>= _) (moved s c allowed) = _
  rw [run_bind_of_ok (run_unwind (h.moved c allowed) _)]
  change StateT.run (if c.atEnd then _ else _) (moved s c allowed) = _
  rw [hend,if_neg Bool.false_ne_true,run_bind_of_ok hflow]
  exact (run_bind_of_ok hrun).trans rfl

section Token

variable {c : Cursor}

theorem isMarker_eq_false {ch : Char} (h : c.rest = ch :: rest) (hd : ch ≠ '-') (hp : ch ≠ '.') :
    c.isMarker '-' = false ∧ c.isMarker '.' = false := by
  refine Bool.or_eq_false_iff.1 (isDocumentMarker_eq_false fun d hmem => ?_)
  rw [h] at hmem
  obtain rfl : ch = d := Option.some.inj hmem
  exact ⟨hd,hp⟩

theorem token_listStart (h : c.rest = '[' :: rest) :
    token true c = flowStart .flowSequenceStart := by
  obtain ⟨hd,hp⟩ := isMarker_eq_false h (by decide) (by decide)
  simp [token,peek_zero h,hd,hp]

theorem token_tableStart (flow : Bool) (h : c.rest = '{' :: rest) :
    token flow c = flowStart .flowMappingStart := by
  obtain ⟨hd,hp⟩ := isMarker_eq_false h (by decide) (by decide)
  simp [token,peek_zero h,hd,hp]

theorem token_listEnd (h : c.rest = ']' :: rest) : token true c = flowEnd .flowSequenceEnd := by
  obtain ⟨hd,hp⟩ := isMarker_eq_false h (by decide) (by decide)
  simp [token,peek_zero h,hd,hp]

theorem token_tableEnd (h : c.rest = '}' :: rest) : token true c = flowEnd .flowMappingEnd := by
  obtain ⟨hd,hp⟩ := isMarker_eq_false h (by decide) (by decide)
  simp [token,peek_zero h,hd,hp]

theorem token_comma (h : c.rest = ',' :: rest) :
    token true c = (allowKey true >>= fun _ => dropCandidate >>= fun _ => marker .flowEntry 1) := by
  obtain ⟨hd,hp⟩ := isMarker_eq_false h (by decide) (by decide)
  simp [token,peek_zero h,hd,hp]

theorem token_colon (h : c.rest = ':' :: rest) : token true c = value := by
  obtain ⟨hd,hp⟩ := isMarker_eq_false h (by decide) (by decide)
  simp [token,peek_zero h,hd,hp]

theorem token_quote (h : c.rest = '"' :: rest) : token true c = keyLike (quotedScalar true) := by
  obtain ⟨hd,hp⟩ := isMarker_eq_false h (by decide) (by decide)
  simp [token,peek_zero h,hd,hp]

def plainFirsts : List Char := ['t','f','n','-','0','1','2','3','4','5','6','7','8','9']

theorem token_plain {ch next : Char} (h : c.rest = ch :: next :: rest) (hch : ch ∈ plainFirsts)
    (hnext : ch = '-' → Decimal.isDigit next = true) : token true c = plainScalar := by
  have hmarker : c.isMarker '-' = false ∧ c.isMarker '.' = false := by
    have hdot : ch ≠ '.' := by rintro rfl; revert hch; decide
    have hdash : ch = '-' → next ≠ '-' := fun heq hdash => by
      have := hnext heq
      rw [hdash] at this
      cases this
    simp only [isMarker,Bool.and_eq_false_iff,beq_eq_false_iff_ne,h,List.take_succ_cons]
    exact ⟨.inl fun heq => hdash (List.cons.inj heq).1 (List.cons.inj (List.cons.inj heq).2).1,
      .inl fun heq => hdot (List.cons.inj heq).1⟩
  have hgap : ch = '-' → isGapOrEnd next = false := fun heq => by
    have hdigit := hnext heq
    have hmem : next ∈ numeralChars := mem_numeralChars_of_isDigit hdigit
    have hall : (numeralChars.all fun c => !isGapOrEnd c) = true := by decide
    simpa using List.all_eq_true.1 hall next hmem
  have hpeek := peek_zero h
  have hpeek' : c.peek 1 = next := peek_one h
  simp only [plainFirsts,List.mem_cons,List.not_mem_nil,or_false] at hch
  rcases hch with rfl | rfl | rfl | rfl | rfl | rfl | rfl | rfl | rfl | rfl | rfl | rfl | rfl | rfl
  case inr.inr.inr.inl =>
    have hdash : isGapOrEnd '-' = false := rfl
    simp [token,hpeek,hpeek',hmarker,hgap rfl,hdash,startsPlain]
  all_goals simp [token,hpeek,hpeek',hmarker,startsPlain,isGapOrEnd,isBreakOrEnd,isBreak]

end Token

section Runs

variable {c : Cursor} {t : Token} {ch : Char}

/-- The candidate of a level is remembered where a key may start, and never has to be a key. -/
theorem run_saveCandidate (h : Calm level s) :
    ∃ candidates, (∀ k ∈ candidates, k.2.required = false) ∧
    saveCandidate.run s = .ok ((),{ s with candidates }) ∧ (s.keyAllowed = true →
      candidates =
        (s.flowLevel,⟨s.tokens.length,false,s.cursor.index,s.cursor.line,s.cursor.column⟩) ::
        s.candidates.filter (·.1 != s.flowLevel)) := by
  have hfree : (s.flowLevel == 0 && s.indent == (s.cursor.column : Int)) = false := by
    rw [h.indent]
    refine Bool.and_eq_false_iff.2 (.inr (beq_eq_false_iff_ne.2 ?_))
    omega
  unfold saveCandidate
  rw [run_get_bind]
  by_cases hk : s.keyAllowed = true
  · refine ⟨_,?_,?_,fun _ => rfl⟩
    · intro k hmem
      rcases List.mem_cons.1 hmem with rfl | hmem
      · rfl
      · exact h.free k (List.mem_filter.1 hmem).1
    · rw [if_pos hk,run_bind_of_ok (run_dropCandidate h.free)]
      dsimp only
      rw [hfree]
      rfl
  · refine ⟨s.candidates,h.free,?_,fun hk' => absurd hk' hk⟩
    rw [if_neg hk]
    rfl

theorem run_flowStart (h : Calm level s) :
    ∃ s', (flowStart t).run s = .ok ((),s') ∧ Calm (level + 1) s' ∧
    s'.keyAllowed = true ∧ s'.tokens = s.tokens ++ [t] ∧ s'.cursor = s.cursor.forward := by
  obtain ⟨candidates,hfree,hrun,-⟩ := run_saveCandidate h
  unfold flowStart
  rw [run_bind_of_ok hrun]
  exact ⟨_,rfl,⟨congrArg (· + 1) h.level,hfree,h.indent,h.flat⟩,rfl,rfl,rfl⟩

theorem run_flowEnd (h : Calm (level + 1) s) :
    ∃ s', (flowEnd t).run s = .ok ((),s') ∧ Calm level s' ∧
    s'.tokens = s.tokens ++ [t] ∧ s'.cursor = s.cursor.forward := by
  have hdrop := run_dropCandidate h.free
  have hflow : inFlow.run { s with candidates := s.candidates.filter (·.1 != s.flowLevel) } =
      .ok (true,{ s with candidates := s.candidates.filter (·.1 != s.flowLevel) }) := by
    have : (s.flowLevel != 0) = true := by rw [h.level]; rfl
    rw [← this]
    rfl
  unfold flowEnd
  rw [run_bind_of_ok hdrop,run_bind_of_ok hflow]
  refine ⟨_,rfl,⟨?_,fun k hk => h.free k (List.mem_filter.1 hk).1,h.indent,h.flat⟩,rfl,rfl⟩
  show s.flowLevel - 1 = level
  rw [h.level]
  rfl

theorem run_comma (h : Calm (level + 1) s) : ∃ s',
    (allowKey true >>= fun _ => dropCandidate >>= fun _ => marker .flowEntry 1).run s =
      .ok ((),s') ∧
      Calm (level + 1) s' ∧ s'.keyAllowed = true ∧ s'.tokens = s.tokens ++ [.flowEntry] ∧
        s'.cursor = s.cursor.forward := by
  have hallow : (allowKey true).run s = .ok ((),{ s with keyAllowed := true }) := rfl
  rw [run_bind_of_ok hallow,
    run_bind_of_ok (run_dropCandidate (s := { s with keyAllowed := true }) h.free)]
  exact ⟨_,rfl,⟨h.level,fun k hk => h.free k (List.mem_filter.1 hk).1,h.indent,h.flat⟩,rfl,rfl,rfl⟩

theorem run_keyLike {find : Cursor → Scanner (Token × Cursor)} (h : Calm level s)
    (hfind : ∀ s', s'.cursor = s.cursor → (find s.cursor).run s' = .ok ((t,c),s')) : ∃ s',
      (keyLike find).run s = .ok ((),s') ∧ Calm level s' ∧
        s'.tokens = s.tokens ++ [t] ∧ s'.cursor = c ∧
        (s.keyAllowed = true → s'.candidates.lookup level =
          some ⟨s.tokens.length,false,s.cursor.index,s.cursor.line,s.cursor.column⟩) := by
  obtain ⟨candidates,hfree,hrun,hkey⟩ := run_saveCandidate h
  unfold keyLike
  rw [run_bind_of_ok hrun]
  have hallow :
      (allowKey false).run { s with candidates } =
      .ok ((),{ s with candidates, keyAllowed := false }) := rfl
  rw [run_bind_of_ok hallow,run_get_bind,
    run_bind_of_ok (hfind { s with candidates, keyAllowed := false } rfl)]
  refine ⟨_,rfl,⟨h.level,hfree,h.indent,h.flat⟩,rfl,rfl,fun hk => ?_⟩
  show candidates.lookup level = _
  rw [hkey hk,h.level,List.lookup_cons_self]

theorem run_plainScalar {text : List Char} {broke : Bool} {last : Cursor} (h : Calm (level + 1) s)
    (hfind : plainFrom true (s.indent + 1) [] false (s.cursor.rest.length + 1) s.cursor =
      (text,broke,last)) :
    ∃ s', plainScalar.run s = .ok ((),s') ∧ Calm (level + 1) s' ∧
      s'.tokens = s.tokens ++ [.scalar (String.ofList text) true] ∧ s'.cursor = last := by
  obtain ⟨candidates,hfree,hrun,-⟩ := run_saveCandidate h
  have hflow : (s.flowLevel != 0) = true := by rw [h.level]; rfl
  unfold plainScalar
  rw [run_bind_of_ok hrun]
  have hallow :
      (allowKey false).run { s with candidates } =
      .ok ((),{ s with candidates, keyAllowed := false }) := rfl
  rw [run_bind_of_ok hallow,run_get_bind]
  dsimp only
  rw [hflow,hfind]
  exact ⟨_,rfl,⟨h.level,hfree,h.indent,h.flat⟩,rfl,rfl⟩

/-- A colon behind a candidate makes it a key. -/
theorem run_value {k : KeyCandidate} (h : Calm (level + 1) s)
    (hk : s.candidates.lookup (level + 1) = some k) :
    ∃ s', value.run s = .ok ((),s') ∧ Calm (level + 1) s' ∧
      s'.tokens = s.tokens.take k.tokenNumber ++ .key :: s.tokens.drop k.tokenNumber ++ [.value] ∧
        s'.cursor = s.cursor.forward := by
  have hlookup : s.candidates.lookup s.flowLevel = some k := by rw [h.level,hk]
  have hflow : inFlow.run s = .ok (true,s) := by
    have : (s.flowLevel != 0) = true := by rw [h.level]; rfl
    rw [← this]
    rfl
  unfold value
  rw [run_get_bind,run_bind_of_ok hflow]
  dsimp only
  rw [hlookup]
  exact ⟨_,rfl,⟨h.level,fun k hk => h.free k (List.mem_filter.1 hk).1,h.indent,h.flat⟩,rfl,rfl⟩

end Runs

end Scanner

end OperationHooks.Yaml
