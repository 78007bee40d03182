import Mathlib.Data.List.Forall2
import OperationHooks.Proofs.Effect.Keeping
import OperationHooks.Yaml.Value
/-!
Data of documents without tags and aliases. Nothing fails when such a document is looked into, and
the table at its root has an entry for each of its keys: a scalar is what its form says, a
collection is one of its kind.
-/
set_option autoImplicit false

namespace OperationHooks.Yaml

open Effect

def plainTags : List Tag := [.null,.bool,.int,.float,.str]

inductive Node.IsSimple (nodes : Array Node) : Node → Prop
  | scalar {tag : Tag} {text : String} {d : Datum} (htag : tag ∈ plainTags)
      (h : scalarDatum tag text = .ok d) :
      IsSimple nodes (.scalar tag text)
  | broken : IsSimple nodes (.brokenScalar .str)
  | sequence (items : List Nat) : IsSimple nodes (.sequence .seq items)
  | mapping {entries : List (Nat × Nat)}
      (h : ∀ entry ∈ entries, (nodes.getD entry.1 default).tag = .str) :
      IsSimple nodes (.mapping .map entries)

def Node.shallow : Node → Datum
  | .scalar tag text => (scalarDatum tag text).toOption.getD .null
  | .brokenScalar _ => .brokenText
  | .sequence _ _ => .list []
  | .mapping _ _ => .table []

theorem getD_setIfInBounds {α : Type} (xs : Array α) (i k : Nat) (x other : α) :
    (xs.setIfInBounds i x).getD k other = if i = k ∧ k < xs.size then x else xs.getD k other := by
  rw [Array.getD_eq_getD_getElem?,Array.getD_eq_getD_getElem?,Array.getElem?_setIfInBounds]
  by_cases hik : i = k
  · subst hik
    by_cases hi : i < xs.size
    · simp [hi]
    · simp [hi]
  · simp [hik]

theorem getD_replicate_none {α : Type} (size k : Nat) :
    (Array.replicate size (none : Option α)).getD k none = none := by
  rw [Array.getD_eq_getD_getElem?,Array.getElem?_replicate]
  split <;> rfl

namespace Constructor

variable {nodes : Array Node} {s s' s'' : Construction} {number : Nat} {entries : List (Nat × Nat)}

/-- Everything that has been made of some nodes is what they are, and collections alone are waiting.
-/
structure Builds (nodes : Array Node) (s : Construction) : Prop where
  same : s.nodes = nodes
  size : s.data.size = nodes.size
  data : ∀ k d, s.data.getD k none = some d → d = (nodes.getD k default).shallow
  waiting : ∀ k ∈ s.waiting, (emptyCollection? (nodes.getD k default).tag).isSome = true

def Made (s : Construction) (number : Nat) : Prop := (s.data.getD number none).isSome = true

/-- From one state work has got to another one, and nothing that was made is lost. -/
structure Grows (nodes : Array Node) (s s' : Construction) : Prop where
  builds : Builds nodes s'
  kept : ∀ k, Made s k → Made s' k

theorem Grows.refl (h : Builds nodes s) : Grows nodes s s := ⟨h,fun _ hk => hk⟩

theorem Grows.trans (h : Grows nodes s s') (h' : Grows nodes s' s'') : Grows nodes s s'' :=
  ⟨h'.builds,fun k hk => h'.kept k (h.kept k hk)⟩

theorem run_node (h : Builds nodes s) (number : Nat) :
    (node number).run s = .ok (nodes.getD number default,s) := by
  rw [← h.same]
  rfl

theorem run_scalar (h : Builds nodes s) (hsimple : (nodes.getD number default).IsSimple nodes)
    (hscalar : emptyCollection? (nodes.getD number default).tag = none) :
    (scalar number (nodes.getD number default).tag).run s =
      .ok ((nodes.getD number default).shallow,s) := by
  have hnode := run_node h number
  generalize nodes.getD number default = n at hnode hsimple hscalar
  have hstands : (∀ tag entries, n ≠ .mapping tag entries) →
      (∀ tag items, n ≠ .sequence tag items) →
      (scalarFor (s.room + 1) number).run s = .ok (n,s) := by
    intro hmapping hsequence
    rw [scalarFor,run_bind_of_ok hnode]
    cases n with
    | mapping tag entries => exact absurd rfl (hmapping tag entries)
    | sequence tag items => exact absurd rfl (hsequence tag items)
    | _ => rfl
  have hmapped : (∀ tag entries, n ≠ .mapping tag entries) →
      (isMapping number).run s = .ok (false,s) := by
    intro hmapping
    rw [isMapping,run_bind_of_ok hnode]
    cases n with
    | mapping tag entries => exact absurd rfl (hmapping tag entries)
    | _ => rfl
  unfold scalar
  rw [run_get_bind]
  cases hsimple with
  | sequence items => cases hscalar
  | mapping hkeys => cases hscalar
  | broken =>
    rw [run_bind_of_ok (hstands nofun nofun)]
    dsimp only
    rw [run_bind_of_ok (hmapped nofun)]
    rfl
  | @scalar tag text d htag hdatum =>
    have hmoment : (tag == .timestamp) = false := by
      revert htag
      cases tag <;> decide
    rw [run_bind_of_ok (hstands nofun nofun)]
    dsimp only
    rw [run_bind_of_ok (hmapped nofun)]
    simp only [Node.tag,hmoment,Node.shallow,hdatum]
    rfl

/-- A state with the datum of a node, and with other collections to wait for. -/
def put (s : Construction) (number : Nat) (d : Datum) (waiting : List Nat) : Construction :=
  { s with data := s.data.setIfInBounds number (some d), waiting }

theorem grows_put (h : Builds nodes s) (number : Nat) {waiting : List Nat}
    (hwaiting : ∀ k ∈ waiting, (emptyCollection? (nodes.getD k default).tag).isSome = true) :
    Grows nodes s (put s number (nodes.getD number default).shallow waiting) ∧
      (number < nodes.size →
        Made (put s number (nodes.getD number default).shallow waiting) number) := by
  refine ⟨⟨⟨h.same,by simp [put,h.size],fun k d hk => ?_,hwaiting⟩,fun k hk => ?_⟩,fun hlt => ?_⟩
  · rw [put,getD_setIfInBounds] at hk
    split at hk
    · rename_i hnumber
      rw [← hnumber.1]
      exact (Option.some.inj hk).symm
    · exact h.data k d hk
  · rw [Made,put,getD_setIfInBounds]
    split
    · rfl
    · exact hk
  · rw [Made,put,getD_setIfInBounds,if_pos ⟨rfl,by rwa [h.size]⟩]
    rfl

/-- A node is made into what it is, unless it has been already. -/
theorem run_start (h : Builds nodes s) (hsimple : (nodes.getD number default).IsSimple nodes) :
    ∃ s', (start number).run s = .ok ((nodes.getD number default).shallow,s') ∧ Grows nodes s s' ∧
      (number < nodes.size → Made s' number) ∧ (¬ Made s number →
        (emptyCollection? (nodes.getD number default).tag).isSome = true →
        s'.waiting = s.waiting ++ [number]) := by
  unfold start
  rw [run_get_bind]
  cases hdata : s.data.getD number none with
  | some d =>
    have hmade : Made s number := by rw [Made,hdata]; rfl
    refine ⟨s,?_,.refl h,fun _ => hmade,fun hnot => absurd hmade hnot⟩
    rw [← h.data number d hdata]
    rfl
  | none =>
    dsimp only
    rw [run_bind_of_ok (run_node h number)]
    cases hempty : emptyCollection? (nodes.getD number default).tag with
    | none =>
      obtain ⟨hgrows,hmade⟩ := grows_put h number h.waiting
      refine ⟨put s number (nodes.getD number default).shallow s.waiting,?_,hgrows,hmade,
        fun _ hsome => nomatch hsome⟩
      dsimp only
      rw [run_bind_of_ok (run_scalar h hsimple hempty)]
      rfl
    | some d =>
      have hwaiting :
          ∀ k ∈ s.waiting ++ [number],
          (emptyCollection? (nodes.getD k default).tag).isSome = true := by
        intro k hk
        rcases List.mem_append.1 hk with hk | hk
        · exact h.waiting k hk
        · rw [List.mem_singleton.1 hk,hempty]
          rfl
      have hshallow : d = (nodes.getD number default).shallow := by
        generalize nodes.getD number default = n at hempty hsimple
        cases hsimple with
        | sequence items => exact (Option.some.inj hempty).symm
        | mapping hkeys => exact (Option.some.inj hempty).symm
        | broken => cases hempty
        | @scalar tag text d htag hdatum =>
          revert htag hempty
          cases tag <;> simp [Node.tag,emptyCollection?,plainTags]
      obtain ⟨hgrows,hmade⟩ := grows_put h number hwaiting
      rw [hshallow]
      exact ⟨put s number (nodes.getD number default).shallow (s.waiting ++ [number]),rfl,hgrows,
        hmade,fun _ _ => rfl⟩

theorem run_entriesOf {tag : Tag} (h : Builds nodes s)
    (hn : nodes.getD number default = .mapping tag entries) :
    (entriesOf number).run s = .ok (entries,s) := by
  rw [entriesOf,run_bind_of_ok (run_node h number),hn]
  rfl

theorem run_nextMerge (h : Builds nodes s)
    (hkeys : ∀ entry ∈ entries, (nodes.getD entry.1 default).tag = .str) :
    ∀ index, (nextMerge index entries).run s = .ok (none,s) := by
  induction entries with
  | nil => exact fun _ => rfl
  | cons entry entries ih =>
    intro index
    have htag := hkeys entry List.mem_cons_self
    have hsettle : (settleDefaultKey entry.1).run s = .ok ((),s) := by
      rw [settleDefaultKey,run_bind_of_ok (run_node h _)]
      generalize nodes.getD entry.1 default = n at htag
      cases n with
      | scalar tag text =>
        obtain rfl : tag = .str := htag
        rfl
      | _ => rfl
    have hmerge : ((nodes.getD entry.1 default).tag == .merge) = false := by rw [htag]; rfl
    rw [nextMerge,run_bind_of_ok (run_node h _),hmerge,if_neg Bool.false_ne_true,
      run_bind_of_ok hsettle]
    exact ih (fun entry' hmem => hkeys entry' (List.mem_cons_of_mem _ hmem)) _

theorem setIfInBounds_getD (nodes : Array Node) (number : Nat) :
    nodes.setIfInBounds number (nodes.getD number default) = nodes := by
  refine Array.ext_getElem? fun i => ?_
  rw [Array.getElem?_setIfInBounds]
  split
  · rename_i hi
    subst hi
    split
    · rename_i hlt
      simp [hlt]
    · rename_i hlt
      simp [hlt]
  · rfl

theorem run_flatten (h : Builds nodes s) (hn : nodes.getD number default = .mapping .map entries)
    (hkeys : ∀ entry ∈ entries, (nodes.getD entry.1 default).tag = .str) :
    (flatten number).run s = .ok ((),s) := by
  have hset : (setEntries number ([] ++ entries)).run s = .ok ((),s) := by
    have hsame : { s with nodes := s.nodes.setIfInBounds number (.mapping .map entries) } = s := by
      rw [← hn,h.same,setIfInBounds_getD,← h.same]
    rw [setEntries,run_bind_of_ok (run_node h _),hn]
    exact congrArg (fun s => Except.ok ((),s)) hsame
  unfold flatten
  rw [run_get_bind]
  dsimp only
  rw [flattenFrom,run_bind_of_ok (run_entriesOf h hn),List.drop_zero,
    run_bind_of_ok (run_nextMerge h hkeys 0)]
  dsimp only
  rw [run_bind_of_ok (run_entriesOf h hn)]
  exact hset

theorem run_forM {α : Type} {f : α → Constructor Unit}
    {done : Construction → α → Prop} {ys : List α}
    (hf : ∀ y ∈ ys, ∀ s, Builds nodes s → ∃ s', (f y).run s = .ok ((),s') ∧
      Grows nodes s s' ∧ done s' y)
    (hdone : ∀ {s s' y}, Grows nodes s s' → done s y → done s' y) (h : Builds nodes s) :
    ∃ s', (ys.forM f).run s = .ok ((),s') ∧ Grows nodes s s' ∧ ∀ y ∈ ys, done s' y := by
  induction ys generalizing s with
  | nil => exact ⟨s,rfl,.refl h,fun _ hy => nomatch hy⟩
  | cons y ys ih =>
    obtain ⟨s₁,hrun,hgrows,hy⟩ := hf y List.mem_cons_self s h
    obtain ⟨s₂,hruns,hgrows',hys⟩ :=
      ih (fun y' hy' => hf y' (List.mem_cons_of_mem _ hy')) hgrows.builds
    refine ⟨s₂,?_,hgrows.trans hgrows',fun y' hy' => ?_⟩
    · exact (run_bind_of_ok hrun).trans hruns
    · rcases List.mem_cons.1 hy' with rfl | hy'
      · exact hdone hgrows' hy
      · exact hys y' hy'

def BothMade (nodes : Array Node) (s : Construction) (entry : Nat × Nat) : Prop :=
  (entry.1 < nodes.size → Made s entry.1) ∧ (entry.2 < nodes.size → Made s entry.2)

theorem BothMade.grows {entry : Nat × Nat} (h : BothMade nodes s entry)
    (hgrows : Grows nodes s s') :
    BothMade nodes s' entry :=
      ⟨fun hlt => hgrows.kept _ (h.1 hlt),fun hlt => hgrows.kept _ (h.2 hlt)⟩

theorem run_startEntry {entry : Nat × Nat} (h : Builds nodes s)
    (hsimple : ∀ k, (nodes.getD k default).IsSimple nodes)
    (hkey : (nodes.getD entry.1 default).tag = .str) :
    ∃ s', (startEntry entry).run s = .ok ((),s') ∧ Grows nodes s s' ∧ BothMade nodes s' entry := by
  obtain ⟨s₁,hrun,hgrows,hmade,-⟩ := run_start h (hsimple entry.1)
  obtain ⟨s₂,hrun',hgrows',hmade',-⟩ := run_start hgrows.builds (hsimple entry.2)
  have hisKey : isKey (nodes.getD entry.1 default).shallow = true := by
    have hs := hsimple entry.1
    generalize nodes.getD entry.1 default = n at hkey hs
    cases hs with
    | broken => rfl
    | sequence items => cases hkey
    | mapping hkeys => cases hkey
    | @scalar tag text d htag hdatum =>
      obtain rfl : tag = .str := hkey
      rfl
  refine ⟨s₂,?_,hgrows.trans hgrows',fun hlt => hgrows'.kept _ (hmade hlt),hmade'⟩
  unfold startEntry
  rw [run_bind_of_ok hrun,hisKey]
  exact run_discard_of_ok hrun'

/-- A collection is looked into without a fault; of a mapping both parts of every entry are made. -/
theorem run_lookInto (h : Builds nodes s) (hsimple : ∀ k, (nodes.getD k default).IsSimple nodes)
    (hcollection : (emptyCollection? (nodes.getD number default).tag).isSome = true) :
    ∃ s', (lookInto number).run s = .ok ((),s') ∧ Grows nodes s s' ∧
      ∀ entries, nodes.getD number default = .mapping .map entries → ∀ entry ∈ entries,
        BothMade nodes s' entry := by
  have hnode := run_node h number
  have hs := hsimple number
  unfold lookInto
  rw [run_bind_of_ok hnode]
  cases hn : nodes.getD number default with
  | scalar tag text =>
    rw [hn] at hs hcollection
    cases hs with
    | scalar htag hdatum =>
      revert htag hcollection
      cases tag <;> simp [Node.tag,emptyCollection?,plainTags]
  | brokenScalar tag =>
    rw [hn] at hs hcollection
    cases hs
    cases hcollection
  | sequence tag items =>
    rw [hn] at hs
    cases hs
    have hitem : ∀ item ∈ items, ∀ s, Builds nodes s →
        ∃ s', (discard (start item)).run s = .ok ((),s') ∧
        Grows nodes s s' ∧ True := by
      intro item _ s h
      obtain ⟨s',hrun,hgrows,-⟩ := run_start h (hsimple item)
      exact ⟨s',run_discard_of_ok hrun,hgrows,trivial⟩
    obtain ⟨s',hrun,hgrows,-⟩ := run_forM hitem (fun _ _ => trivial) h
    exact ⟨s',hrun,hgrows,nofun⟩
  | mapping tag entries =>
    rw [hn] at hs
    cases hs with
    | mapping hkeys =>
      obtain ⟨s',hrun,hgrows,hmade⟩ := run_forM
        (fun entry hmem s h => run_startEntry h hsimple (hkeys entry hmem))
        (fun hgrows hmade => hmade.grows hgrows) h
      refine ⟨s',?_,hgrows,fun entries' heq => ?_⟩
      · dsimp only
        rw [run_bind_of_ok (run_flatten h hn hkeys),run_bind_of_ok (run_entriesOf h hn)]
        exact hrun
      · cases heq
        exact hmade

theorem run_lookIntoAll_succ {fuel : Nat} {rest : List Nat}
    (hall : ∀ s, Builds nodes s → ∃ s', (lookIntoAll fuel).run s = .ok ((),s') ∧ Grows nodes s s')
    (h : Builds nodes s) (hsimple : ∀ k, (nodes.getD k default).IsSimple nodes)
    (hw : s.waiting = number :: rest) :
    ∃ s', (lookIntoAll (fuel + 1)).run s = .ok ((),s') ∧ Grows nodes s s' ∧
      ∀ entries, nodes.getD number default = .mapping .map entries → ∀ entry ∈ entries,
        BothMade nodes s' entry := by
  have hrest : Grows nodes s { s with waiting := rest } :=
    ⟨⟨h.same,h.size,h.data,fun k hk => h.waiting k (by rw [hw]; exact List.mem_cons_of_mem _ hk)⟩,
      fun _ hk => hk⟩
  have hnumber := h.waiting number (by rw [hw]; exact List.mem_cons_self)
  obtain ⟨s₁,hrun,hgrows,hmade⟩ := run_lookInto hrest.builds hsimple hnumber
  obtain ⟨s₂,hrun',hgrows'⟩ := hall s₁ hgrows.builds
  refine ⟨s₂,?_,(hrest.trans hgrows).trans hgrows',fun entries hn entry hmem =>
    (hmade entries hn entry hmem).grows hgrows'⟩
  have hmodify :
      (modify fun s : Construction => { s with waiting := rest } : Constructor Unit).run s =
      .ok ((),{ s with waiting := rest }) := rfl
  rw [lookIntoAll,run_get_bind,hw]
  dsimp only
  rw [run_bind_of_ok hmodify,run_bind_of_ok hrun]
  exact hrun'

theorem run_lookIntoAll (hsimple : ∀ k, (nodes.getD k default).IsSimple nodes) (fuel : Nat) :
    ∀ s, Builds nodes s → ∃ s', (lookIntoAll fuel).run s = .ok ((),s') ∧ Grows nodes s s' := by
  induction fuel with
  | zero => exact fun s h => ⟨s,rfl,.refl h⟩
  | succ fuel ih =>
    intro s h
    cases hw : s.waiting with
    | nil => exact ⟨s,by rw [lookIntoAll,run_get_bind,hw]; rfl,.refl h⟩
    | cons number rest =>
      obtain ⟨s',hrun,hgrows,-⟩ := run_lookIntoAll_succ ih h hsimple hw
      exact ⟨s',hrun,hgrows⟩

theorem exists_made (room : Nat) (hsimple : ∀ k, (nodes.getD k default).IsSimple nodes) {root : Nat}
    (hroot : nodes.getD root default = .mapping .map entries) (hlt : root < nodes.size) :
    ∃ made, (do discard (start root); lookIntoAll (nodes.size + 1) : Constructor Unit).run
        ⟨nodes,.replicate nodes.size none,[],room⟩ = .ok ((),made) ∧
        Builds nodes made ∧ Made made root ∧
      ∀ entry ∈ entries, BothMade nodes made entry := by
  have hstart : Builds nodes ⟨nodes,.replicate nodes.size none,[],room⟩ :=
    ⟨rfl,Array.size_replicate,fun k d hk => (by rw [getD_replicate_none] at hk; cases hk),
      fun _ hk => nomatch hk⟩
  have hunmade : ¬ Made ⟨nodes,.replicate nodes.size none,[],room⟩ root := by
    rw [Made,getD_replicate_none]
    exact Bool.false_ne_true
  obtain ⟨s₁,hrun,hgrows,hmade,hwaiting⟩ := run_start hstart (hsimple root)
  have hw : s₁.waiting = [root] := hwaiting hunmade (by rw [hroot]; rfl)
  obtain ⟨s₂,hrun',hgrows',hentries⟩ :=
    run_lookIntoAll_succ (run_lookIntoAll hsimple nodes.size) hgrows.builds hsimple hw
  refine ⟨s₂,?_,hgrows'.builds,hgrows'.kept _ (hmade hlt),hentries entries hroot⟩
  rw [run_bind_of_ok (run_discard_of_ok hrun)]
  exact hrun'

theorem Builds.madeOf (h : Builds nodes s) (hmade : Made s number) :
    (s.data.getD number none).getD .null = (nodes.getD number default).shallow := by
  obtain ⟨d,hd⟩ := Option.isSome_iff_exists.1 hmade
  rw [hd,h.data number d hd]
  rfl

end Constructor

def Resembles (d shallow : Datum) : Prop :=
  match shallow with
  | .list _ => ∃ items, d = .list items
  | .table _ => ∃ entries, d = .table entries
  | .members _ => ∃ items, d = .members items
  | s => d = s

theorem Resembles.refl (d : Datum) : Resembles d d := by
  cases d <;> first | rfl | exact ⟨_,rfl⟩

/-- From states of the invariant work gives values of a kind and such states again. -/
def Yields {σ α : Type} (I : σ → Prop) (x : StateM σ α) (post : α → Prop) : Prop :=
  ∀ s, I s → post (x.run s).1 ∧ I (x.run s).2

namespace Yields

variable {σ α β : Type} {I : σ → Prop} {x : StateM σ α} {post : α → Prop}

theorem pure {a : α} (h : post a) : Yields I (Pure.pure a : StateM σ α) post := fun _ hs => ⟨h,hs⟩

theorem bind {f : α → StateM σ β} {post' : β → Prop} (hx : Yields I x post)
    (hf : ∀ a, post a → Yields I (f a) post') : Yields I (x >>= f) post' := by
  intro s hs
  obtain ⟨ha,hs'⟩ := hx s hs
  exact hf _ ha _ hs'

theorem get : Yields I (get : StateM σ σ) I := fun _ hs => ⟨hs,hs⟩

theorem modify {f : σ → σ} (h : ∀ s, I s → I (f s)) :
    Yields I (modify f : StateM σ PUnit) fun _ => True :=
  fun s hs => ⟨trivial,h s hs⟩

theorem mapM (post : α → β → Prop) {f : α → StateM σ β} {ys : List α}
    (h : ∀ y, Yields I (f y) (post y)) :
    Yields I (ys.mapM f) fun zs => List.Forall₂ post ys zs := by
  induction ys with
  | nil => exact .pure .nil
  | cons y ys ih =>
    rw [List.mapM_cons]
    exact (h y).bind fun z hz => ih.bind fun zs hzs => .pure (.cons hz hzs)

theorem mono {post' : α → Prop} (h : Yields I x post) (hpost : ∀ a, post a → post' a) :
    Yields I x post' :=
  fun s hs => ⟨hpost _ (h s hs).1,(h s hs).2⟩

end Yields

section Filling

variable {made : Construction}

def madeOf (made : Construction) (number : Nat) : Datum := (made.data.getD number none).getD .null

def Filled (made : Construction) (filled : Array (Option Datum)) : Prop :=
  ∀ k d, filled.getD k none = some d → Resembles d (madeOf made k)

theorem Filled.set {filled : Array (Option Datum)} {number : Nat} {d : Datum}
    (h : Filled made filled)
    (hd : Resembles d (madeOf made number)) :
      Filled made (filled.setIfInBounds number (some d)) := by
  intro k d' hk
  rw [getD_setIfInBounds] at hk
  split at hk
  · rename_i hnumber
    rw [← hnumber.1,← Option.some.inj hk]
    exact hd
  · exact h k d' hk

def inside (made : Construction) (fuel : Nat) : Datum → Node → Filling Datum
  | .list _, .sequence .seq items => do pure (.list (← items.mapM (fill made fuel)))
  | .list _, .sequence _ items => do
    let pairs ← items.mapM fun item =>
      match made.nodes.getD item default with
      | .mapping _ entries => entries.mapM fun (k,v) => do
        pure (.list [← fill made fuel k,← fill made fuel v])
      | _ => pure []
    pure (.list pairs.flatten)
  | .table _, .mapping _ entries => do
    pure (.table (← entries.mapM fun (k,v) => do pure (← fill made fuel k,← fill made fuel v)))
  | .members _, .mapping _ entries => do
    pure (.members (← entries.mapM fun (k,_) => fill made fuel k))
  | d, _ => pure d

theorem fill_succ (fuel number : Nat) : fill made (fuel + 1) number = (do
    match (← get).getD number none with
    | some d => pure d
    | none =>
      modify (·.setIfInBounds number (some (madeOf made number)))
      let d ← inside made fuel (madeOf made number) (made.nodes.getD number default)
      modify (·.setIfInBounds number (some d))
      pure d : Filling Datum) := by
  rw [fill]
  refine congrArg (get >>= ·) (funext fun filled => ?_)
  cases filled.getD number none with
  | some d => rfl
  | none =>
    refine congrArg (modify _ >>= ·) (funext fun _ => ?_)
    unfold madeOf
    generalize (made.data.getD number none).getD .null = shallow
    generalize made.nodes.getD number default = n
    cases shallow with
    | list items =>
      cases n with
      | sequence tag items => cases tag <;> rfl
      | _ => rfl
    | _ => cases n <;> rfl

theorem inside_yields {fuel : Nat} {post : Nat → Datum → Prop}
    (h : ∀ number, Yields (Filled made) (fill made fuel number) (post number))
    (shallow : Datum) (n : Node) :
    Yields (Filled made) (inside made fuel shallow n) fun d => Resembles d shallow ∧
      ∀ es tag entries, shallow = .table es → n = .mapping tag entries → ∃ found, d = .table found ∧
        List.Forall₂ (fun entry pair => post entry.1 pair.1 ∧ post entry.2 pair.2)
          entries found := by
  unfold inside
  split
  · exact (Yields.mapM post h).bind fun _ _ => .pure ⟨⟨_,rfl⟩,by simp⟩
  · refine (Yields.mapM (fun _ _ => True) fun item => ?_).bind fun _ _ => .pure ⟨⟨_,rfl⟩,by simp⟩
    split
    · refine (Yields.mapM (fun _ _ => True) fun entry => ?_).mono fun _ _ => trivial
      exact (h _).bind fun _ _ => (h _).bind fun _ _ => .pure trivial
    · exact .pure trivial
  · rename_i es tag entries
    have hpair :
        ∀ entry : Nat × Nat,
        Yields (Filled made) (do pure (← fill made fuel entry.1,← fill made fuel entry.2))
        fun pair => post entry.1 pair.1 ∧ post entry.2 pair.2 :=
      fun entry => (h _).bind fun _ hk => (h _).bind fun _ hv => .pure ⟨hk,hv⟩
    refine (Yields.mapM _ hpair).bind fun found hfound => .pure ⟨⟨found,rfl⟩,?_⟩
    intro _ _ _ _ heq
    obtain ⟨-,rfl⟩ := Node.mapping.inj heq
    exact ⟨found,rfl,hfound⟩
  · exact (Yields.mapM (fun entry : Nat × Nat => post entry.1) fun entry => h _).bind fun _ _ =>
      .pure ⟨⟨_,rfl⟩,by simp⟩
  · rename_i htable _
    exact .pure ⟨.refl _,fun es tag entries hs hn => (htable es tag entries hs hn).elim⟩

/-- A node that has not been filled in is, with what resembles it, and a mapping entry by entry. -/
theorem unfilled_yields {fuel : Nat} {post : Nat → Datum → Prop}
    (h : ∀ number, Yields (Filled made) (fill made fuel number) (post number)) (number : Nat) :
    Yields (Filled made) (do
      modify (·.setIfInBounds number (some (madeOf made number)))
      let d ← inside made fuel (madeOf made number) (made.nodes.getD number default)
      modify (·.setIfInBounds number (some d))
      pure d) fun d => Resembles d (madeOf made number) ∧ ∀ es tag entries,
        madeOf made number = .table es →
        made.nodes.getD number default = .mapping tag entries → ∃ found, d = .table found ∧
          List.Forall₂ (fun entry pair => post entry.1 pair.1 ∧
            post entry.2 pair.2) entries found :=
  (Yields.modify fun _ hs => hs.set (.refl _)).bind fun _ _ =>
    (inside_yields h _ _).bind fun _ hd =>
    (Yields.modify fun _ hs => hs.set hd.1).bind fun _ _ => .pure hd

theorem fill_yields (fuel : Nat) : ∀ number, Yields (Filled made) (fill made fuel number)
    fun d => fuel ≠ 0 → Resembles d (madeOf made number) := by
  induction fuel with
  | zero => exact fun _ => .pure fun h => absurd rfl h
  | succ fuel ih =>
    intro number
    rw [fill_succ]
    refine Yields.get.bind fun filled hfilled => ?_
    cases hd : filled.getD number none with
    | some d => exact .pure fun _ => hfilled number d hd
    | none => exact (unfilled_yields ih number).mono fun d hd _ => hd.1

theorem fill_mapping {fuel number : Nat} {es : List (Datum × Datum)} {tag : Tag}
    {entries : List (Nat × Nat)}
    {filled : Array (Option Datum)} (hfuel : fuel ≠ 0) (hfilled : Filled made filled)
    (hnone : filled.getD number none = none) (hmade : madeOf made number = .table es)
    (hn : made.nodes.getD number default = .mapping tag entries) :
    ∃ found, ((fill made (fuel + 1) number).run filled).1 = .table found ∧
    List.Forall₂ (fun entry pair =>
      Resembles pair.1 (madeOf made entry.1) ∧ Resembles pair.2 (madeOf made entry.2))
        entries found := by
  obtain ⟨found,hfound,hpairs⟩ :=
    (unfilled_yields (fill_yields fuel) number filled hfilled).1.2 es tag entries hmade hn
  refine ⟨found,?_,hpairs.imp fun entry pair h => ⟨h.1 hfuel,h.2 hfuel⟩⟩
  rw [← hfound,fill_succ]
  change ((match filled.getD number none with
    | some d => pure d
    | none => _ : Filling Datum).run filled).1 = _
  rw [hnone]

end Filling

/-- A document of simple nodes whose root is a mapping is a table with its entries, one by one. -/
theorem exists_datum {nodes : Array Node} {room root : Nat} {entries : List (Nat × Nat)}
    (hsimple : ∀ k, (nodes.getD k default).IsSimple nodes)
    (hroot : nodes.getD root default = .mapping .map entries)
    (hlt : root < nodes.size)
    (hbounds : ∀ entry ∈ entries, entry.1 < nodes.size ∧ entry.2 < nodes.size) :
    ∃ found, (Document.mk nodes root).datum room = .ok (.table found) ∧
    List.Forall₂ (fun entry pair =>
      Resembles pair.1 (nodes.getD entry.1 default).shallow ∧
        Resembles pair.2 (nodes.getD entry.2 default).shallow)
        entries found := by
  obtain ⟨made,hrun,hbuilds,hmade,hentries⟩ := Constructor.exists_made room hsimple hroot hlt
  have htable : madeOf made root = .table [] := by rw [madeOf,hbuilds.madeOf hmade,hroot]; rfl
  have hfilled : Filled made (.replicate nodes.size none) := fun k d hk => by
    rw [getD_replicate_none] at hk
    cases hk
  obtain ⟨found,hfound,hpairs⟩ := fill_mapping
    (Nat.ne_of_gt (Nat.lt_of_le_of_lt (Nat.zero_le _) hlt)) hfilled
    (getD_replicate_none _ _) htable (by rw [hbuilds.same,hroot])
  refine ⟨found,?_,?_⟩
  · unfold Document.datum
    dsimp only
    rw [hrun]
    exact congrArg Except.ok hfound
  · refine (List.forall₂_iff_get.2 ⟨hpairs.length_eq,fun i hi hi' => ?_⟩)
    have hpair := hpairs.get hi hi'
    obtain ⟨hk,hv⟩ := hentries _ (List.get_mem entries ⟨i,hi⟩)
    obtain ⟨hk',hv'⟩ := hbounds _ (List.get_mem entries ⟨i,hi⟩)
    rwa [madeOf,madeOf,hbuilds.madeOf (hk hk'),hbuilds.madeOf (hv hv')] at hpair

end OperationHooks.Yaml
