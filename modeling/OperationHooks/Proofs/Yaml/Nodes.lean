import OperationHooks.Proofs.Yaml.Flow
import OperationHooks.Yaml.Node
/-!
The nodes of a JSON document. A list or table takes its number before its parts do, so the nodes of
a document are those of its parts one after another, each behind the node that holds it.
-/
set_option autoImplicit false

namespace OperationHooks.Json

open Yaml (Node Token)

def Quotation.node (q : Quotation) : Node :=
  match (Quotation.pieces q).mapM id with
  | some text => .scalar .str (String.ofList text)
  | none => .brokenScalar .str

mutual

def Written.nodes : Written → Nat → List Node
  | .word w, _ => [.scalar (Yaml.resolve (String.ofList w.text)) (String.ofList w.text)]
  | .number n, _ => [.scalar (Yaml.resolve (String.ofList n.text)) (String.ofList n.text)]
  | .quoted q, _ => [Quotation.node q]
  | .emptyList _, _ => [.sequence .seq []]
  | .list items, k => .sequence .seq (items.numbers (k + 1)) :: items.nodes (k + 1)
  | .emptyTable _, _ => [.mapping .map []]
  | .table entries, k => .mapping .map (entries.numbers (k + 1)) :: entries.nodes (k + 1)

def Items.nodes : Items → Nat → List Node
  | .last _ item _, k => item.nodes k
  | .more _ item _ rest, k => item.nodes k ++ rest.nodes (k + (item.nodes k).length)

def Items.numbers : Items → Nat → List Nat
  | .last _ _ _, k => [k]
  | .more _ item _ rest, k => k :: rest.numbers (k + (item.nodes k).length)

def Entries.nodes : Entries → Nat → List Node
  | .last label value _, k => Quotation.node label.key :: value.nodes (k + 1)
  | .more label value _ rest, k =>
    Quotation.node label.key ::
      (value.nodes (k + 1) ++ rest.nodes (k + 1 + (value.nodes (k + 1)).length))

def Entries.numbers : Entries → Nat → List (Nat × Nat)
  | .last _ _ _, k => [(k,k + 1)]
  | .more _ value _ rest, k => (k,k + 1) :: rest.numbers (k + 1 + (value.nodes (k + 1)).length)

end

mutual

/-- How many lists and tables are inside each other. -/
def Written.depth : Written → Nat
  | .word _ | .number _ | .quoted _ => 0
  | .emptyList _ | .emptyTable _ => 1
  | .list items => items.depth + 1
  | .table entries => entries.depth + 1

def Items.depth : Items → Nat
  | .last _ item _ => item.depth
  | .more _ item _ rest => max item.depth rest.depth

def Entries.depth : Entries → Nat
  | .last _ value _ => value.depth
  | .more _ value _ rest => max value.depth rest.depth

end

end OperationHooks.Json

namespace OperationHooks.Yaml

open Effect Json

def Token.opens : Token → Bool
  | .scalar _ _ | .brokenScalar | .flowSequenceStart | .flowMappingStart => true
  | _ => false

theorem opens_token (q : Quotation) : (Quotation.token q).opens = true := by
  unfold Quotation.token
  cases (Quotation.pieces q).mapM id <;> rfl

theorem exists_opening (w : Written) : ∃ t more, w.tokens = t :: more ∧ t.opens = true := by
  cases w with
  | word w | number n => exact ⟨_,_,by rw [Written.tokens],rfl⟩
  | quoted q => exact ⟨_,_,by rw [Written.tokens],opens_token q⟩
  | emptyList gap | list items | emptyTable gap | table entries =>
    exact ⟨_,_,by rw [Written.tokens],rfl⟩

namespace Composer

variable {s : Composition} {t u : Token} {ts rest : List Token} {c : Context} {nodes : Array Node}
  {anchors : List (String × Nat)}

def IsReadable : Token → Prop
  | .unreadable _ => False
  | _ => True

theorem isReadable_of_opens (h : t.opens = true) : IsReadable t := by
  cases t with
  | unreadable fault => cases h
  | _ => trivial

theorem run_next (h : IsReadable t) :
    next?.run ⟨t :: rest,nodes,anchors⟩ = .ok (some t,⟨t :: rest,nodes,anchors⟩) := by
  cases t with
  | unreadable fault => exact h.elim
  | _ => rfl

theorem run_take (h : IsReadable t) :
    (take? t).run ⟨t :: rest,nodes,anchors⟩ = .ok (true,⟨rest,nodes,anchors⟩) := by
  unfold take?
  rw [run_bind_of_ok (run_next h),if_pos (beq_self_eq_true _)]
  rfl

theorem run_take_of_ne (h : IsReadable t) (hne : t ≠ u) :
    (take? u).run ⟨t :: rest,nodes,anchors⟩ = .ok (false,⟨t :: rest,nodes,anchors⟩) := by
  unfold take?
  rw [run_bind_of_ok (run_next h),if_neg (by simpa using hne)]
  rfl

theorem run_expect (h : IsReadable t) :
    (expect t).run ⟨t :: rest,nodes,anchors⟩ = .ok ((),⟨rest,nodes,anchors⟩) := by
  unfold expect
  rw [run_bind_of_ok (run_take h)]
  rfl

theorem run_nextIn (h : IsReadable t) (ts : List Token) :
    (nextIn ts).run ⟨t :: rest,nodes,anchors⟩ = .ok (ts.contains t,⟨t :: rest,nodes,anchors⟩) := by
  unfold nextIn
  rw [run_bind_of_ok (run_next h)]
  rfl

theorem run_scalar (text : String) (plain block indentless : Bool) (fuel : Nat) :
    (node c block indentless (fuel + 1)).run ⟨.scalar text plain :: rest,nodes,anchors⟩ =
      .ok (nodes.size,
        ⟨rest,nodes.push (.scalar (if plain then resolve text else .str) text),anchors⟩) := by
  rw [node]
  cases plain <;> rfl

theorem run_brokenScalar (block indentless : Bool) (fuel : Nat) :
    (node c block indentless (fuel + 1)).run ⟨.brokenScalar :: rest,nodes,anchors⟩ =
      .ok (nodes.size,⟨rest,nodes.push (.brokenScalar .str),anchors⟩) := by
  rw [node]
  rfl

theorem run_quotation (q : Quotation) (block indentless : Bool) (fuel : Nat) :
    (node c block indentless (fuel + 1)).run ⟨Quotation.token q :: rest,nodes,anchors⟩ =
      .ok (nodes.size,⟨rest,nodes.push (Quotation.node q),anchors⟩) := by
  unfold Quotation.token Quotation.node
  cases (Quotation.pieces q).mapM id with
  | none => exact run_brokenScalar block indentless fuel
  | some text => exact run_scalar (String.ofList text) false block indentless fuel

theorem appendList_nil (nodes : Array Node) : nodes ++ ([] : List Node) = nodes :=
  Array.toList_inj.1 (by simp)

theorem appendList_appendList (nodes : Array Node) (more further : List Node) :
    nodes ++ more ++ further = nodes ++ (more ++ further) := Array.toList_inj.1 (by simp)

theorem size_appendList (nodes : Array Node) (more : List Node) :
    (nodes ++ more).size = nodes.size + more.length := by
  rw [← Array.length_toList,Array.toList_appendList,List.length_append,Array.length_toList]

theorem push_append (nodes : Array Node) (n : Node) (more : List Node) :
    nodes.push n ++ more = nodes ++ n :: more :=
  Array.toList_inj.1 (by simp)

/-- A number that is taken first is given its node last. -/
theorem setIfInBounds_placeholder (n : Node) (more : List Node) :
    (nodes.push default ++ more).setIfInBounds nodes.size n = nodes ++ n :: more := by
  apply Array.toList_inj.1
  simp

theorem run_collection {read : Composer Node} {n : Node} {nodes' : Array Node}
    (h : read.run ⟨ts,nodes.push default,anchors⟩ = .ok (n,⟨rest,nodes',anchors⟩)) :
    (collection ⟨none,none⟩ read).run ⟨t :: ts,nodes,anchors⟩ =
      .ok (nodes.size,⟨rest,nodes'.setIfInBounds nodes.size n,anchors⟩) := by
  have hadd : (addNamed none default).run ⟨t :: ts,nodes,anchors⟩ =
      .ok (nodes.size,⟨t :: ts,nodes.push default,anchors⟩) := rfl
  have hread :
      (drop *> read).run ⟨t :: ts,nodes.push default,anchors⟩ = .ok (n,⟨rest,nodes',anchors⟩) := h
  unfold collection unopened
  rw [run_bind_of_ok hadd,run_bind_of_ok hread]
  rfl

theorem within_of_le {α : Type} (hroom : callsPerCollection ≤ c.room)
    (read : Context → Composer α) :
    c.within read = read c.inner := if_neg (Nat.not_lt.2 hroom)

theorem run_sequence {items : List Nat} {more : List Node} (block indentless : Bool) {fuel : Nat}
    (hroom : callsPerCollection ≤ c.room)
    (h : (flowItems c.inner true fuel).run ⟨ts,nodes.push default,anchors⟩ =
      .ok (items,⟨rest,nodes.push default ++ more,anchors⟩)) :
    (node c block indentless (fuel + 1)).run ⟨.flowSequenceStart :: ts,nodes,anchors⟩ =
      .ok (nodes.size,⟨rest,nodes ++ .sequence .seq items :: more,anchors⟩) := by
  have hread :
      (c.within fun c => flowItems c true fuel >>= fun items => pure (Node.sequence .seq items)).run
      ⟨ts,nodes.push default,anchors⟩ =
        .ok (.sequence .seq items,⟨rest,nodes.push default ++ more,anchors⟩) := by
    rw [within_of_le hroom,run_bind_of_ok h]
    rfl
  rw [node,← setIfInBounds_placeholder]
  exact run_collection hread

theorem run_mapping {entries : List (Nat × Nat)} {more : List Node}
    (block indentless : Bool) {fuel : Nat}
    (hroom : callsPerCollection ≤ c.room)
    (h : (flowEntries c.inner true fuel).run ⟨ts,nodes.push default,anchors⟩ =
      .ok (entries,⟨rest,nodes.push default ++ more,anchors⟩)) :
    (node c block indentless (fuel + 1)).run ⟨.flowMappingStart :: ts,nodes,anchors⟩ =
      .ok (nodes.size,⟨rest,nodes ++ .mapping .map entries :: more,anchors⟩) := by
  have hread :
      (c.within fun c => flowEntries c true fuel >>=
        fun entries => pure (Node.mapping .map entries)).run
      ⟨ts,nodes.push default,anchors⟩ =
        .ok (.mapping .map entries,⟨rest,nodes.push default ++ more,anchors⟩) := by
    rw [within_of_le hroom,run_bind_of_ok h]
    rfl
  rw [node,← setIfInBounds_placeholder]
  exact run_collection hread

/-- What stands in front of a part, if it is not the first one. -/
def lead (first : Bool) : List Token := if first then [] else [.flowEntry]

theorem ne_of_opens (ht : t.opens = true) (hu : u.opens = false) : t ≠ u := by
  rintro rfl
  rw [ht] at hu
  cases hu

theorem run_take_lead (first : Bool) (ht : t.opens = true) (hu : u.opens = false)
    (hne : u ≠ .flowEntry) :
    (take? u).run ⟨lead first ++ t :: ts,nodes,anchors⟩ =
      .ok (false,⟨lead first ++ t :: ts,nodes,anchors⟩) := by
  cases first with
  | true => exact run_take_of_ne (isReadable_of_opens ht) (ne_of_opens ht hu)
  | false => exact run_take_of_ne trivial (Ne.symm hne)

/-- The mark between two parts is passed; a part follows. -/
theorem run_lead {α : Type} (first : Bool) (next : Composer α) :
    (do if !first then expect .flowEntry
        next : Composer α).run ⟨lead first ++ t :: ts,nodes,anchors⟩ =
          next.run ⟨t :: ts,nodes,anchors⟩ := by
  cases first with
  | true => rfl
  | false => exact run_bind_of_ok (run_expect trivial)

theorem run_flowItems_end (first : Bool) (fuel : Nat) :
    (flowItems c first (fuel + 1)).run ⟨.flowSequenceEnd :: rest,nodes,anchors⟩ =
      .ok ([],⟨rest,nodes,anchors⟩) := by
  rw [flowItems,run_bind_of_ok (run_take (t := .flowSequenceEnd) trivial)]
  rfl

theorem run_flowItems_more {item : Nat} {items : List Nat} {fuel : Nat}
    {s' : Composition} (first : Bool)
    (ht : t.opens = true)
    (hitem : (node c false false fuel).run ⟨t :: ts,nodes,anchors⟩ = .ok (item,s))
    (hmore : (flowItems c false fuel).run s = .ok (items,s')) :
    (flowItems c first (fuel + 1)).run ⟨lead first ++ t :: ts,nodes,anchors⟩ =
      .ok (item :: items,s') := by
  have hread := isReadable_of_opens ht
  have hend : [Token.flowSequenceEnd].contains t = false := by
    simpa using ne_of_opens (u := .flowSequenceEnd) ht rfl
  rw [flowItems,run_bind_of_ok (run_take_lead first ht rfl (by decide))]
  refine (run_lead first _).trans ?_
  rw [run_bind_of_ok (run_take_of_ne hread (ne_of_opens ht rfl))]
  change StateT.run (nextIn [.flowSequenceEnd] >>= _) _ = _
  rw [run_bind_of_ok (run_nextIn hread _),hend]
  change StateT.run (node c false false fuel >>= _) _ = _
  rw [run_bind_of_ok hitem,run_bind_of_ok hmore]
  rfl

theorem run_flowEntries_end (first : Bool) (fuel : Nat) :
    (flowEntries c first (fuel + 1)).run ⟨.flowMappingEnd :: rest,nodes,anchors⟩ =
      .ok ([],⟨rest,nodes,anchors⟩) := by
  rw [flowEntries,run_bind_of_ok (run_take (t := .flowMappingEnd) trivial)]
  rfl

theorem run_nodeUnless {block indentless : Bool} {number fuel : Nat} {ends : List Token}
    (ht : t.opens = true)
    (hends : ends.any Token.opens = false)
    (h : (node c block indentless fuel).run ⟨t :: ts,nodes,anchors⟩ = .ok (number,s)) :
    (nodeUnless c ends block indentless (fuel + 1)).run ⟨t :: ts,nodes,anchors⟩ =
      .ok (number,s) := by
  have hnone : ends.contains t = false := by
    rw [← Bool.not_eq_true,List.contains_iff_mem]
    intro hmem
    have := List.any_eq_false.1 hends t hmem
    exact this ht
  rw [nodeUnless,run_bind_of_ok (run_nextIn (isReadable_of_opens ht) _),hnone]
  exact h

theorem run_flowEntries_more {value : Nat} {entries : List (Nat × Nat)} {fuel : Nat}
    {s' : Composition} {q : Quotation}
    (first : Bool) (ht : t.opens = true)
    (hvalue : (node c false false (fuel + 1)).run ⟨t :: ts,nodes.push (Quotation.node q),anchors⟩ =
      .ok (value,s))
    (hmore : (flowEntries c false (fuel + 2)).run s = .ok (entries,s')) :
    (flowEntries c first (fuel + 3)).run
      ⟨lead first ++ .key :: Quotation.token q :: .value :: t :: ts,nodes,anchors⟩ =
        .ok ((nodes.size,value) :: entries,s') := by
  have hkey : (nodeUnless c [.value,.flowEntry,.flowMappingEnd] false false (fuel + 2)).run
      ⟨Quotation.token q :: .value :: t :: ts,nodes,anchors⟩ =
        .ok (nodes.size,⟨.value :: t :: ts,nodes.push (Quotation.node q),anchors⟩) :=
    run_nodeUnless (opens_token q) rfl (run_quotation q false false fuel)
  have htake : (take? .flowMappingEnd).run
      ⟨lead first ++ .key :: Quotation.token q :: .value :: t :: ts,nodes,anchors⟩ =
        .ok (false,
          ⟨lead first ++ .key :: Quotation.token q :: .value :: t :: ts,nodes,anchors⟩) := by
    cases first <;> rfl
  rw [flowEntries,run_bind_of_ok htake]
  refine (run_lead first _).trans ?_
  rw [run_bind_of_ok (run_take (t := .key) trivial)]
  change StateT.run (nodeUnless c [.value,.flowEntry,.flowMappingEnd] false false (fuel + 2) >>=
    _) _ = _
  rw [run_bind_of_ok hkey,run_bind_of_ok (run_take (t := .value) trivial)]
  change StateT.run (nodeUnless c [.flowEntry,.flowMappingEnd] false false (fuel + 2) >>= _) _ = _
  rw [run_bind_of_ok (run_nodeUnless ht rfl hvalue),run_bind_of_ok hmore]
  rfl

mutual

/-- The composer gives a value the nodes that it has, and passes its tokens. -/
theorem run_written (w : Written) (c : Context) (hroom : callsPerCollection * w.depth ≤ c.room)
    (block indentless : Bool) (fuel : Nat) (hf : 2 * w.tokens.length ≤ fuel) (rest : List Token)
    (nodes : Array Node) :
    (node c block indentless fuel).run ⟨w.tokens ++ rest,nodes,anchors⟩ =
      .ok (nodes.size,⟨rest,nodes ++ w.nodes nodes.size,anchors⟩) := by
  obtain ⟨t,more,hopening,-⟩ := exists_opening w
  obtain ⟨fuel,rfl⟩ : ∃ k, fuel = k + 1 := Nat.exists_eq_add_one.2 (by simp [hopening] at hf; omega)
  match w with
  | .word w =>
    simp only [Written.tokens,Written.nodes]
    exact run_scalar _ true block indentless fuel
  | .number n =>
    simp only [Written.tokens,Written.nodes]
    exact run_scalar _ true block indentless fuel
  | .quoted q =>
    simp only [Written.tokens,Written.nodes]
    exact run_quotation q block indentless fuel
  | .emptyList gap =>
    simp only [Written.tokens,List.length_cons,List.length_nil] at hf
    obtain ⟨fuel,rfl⟩ : ∃ k, fuel = k + 1 := Nat.exists_eq_add_one.2 (by omega)
    rw [Written.depth,Nat.mul_one] at hroom
    have hend :
        (flowItems c.inner true (fuel + 1)).run ⟨.flowSequenceEnd :: rest,
          nodes.push default,anchors⟩ =
        .ok ([],⟨rest,nodes.push default ++ ([] : List Node),anchors⟩) := by
      rw [appendList_nil]
      exact run_flowItems_end true fuel
    simp only [Written.tokens,Written.nodes]
    exact run_sequence block indentless hroom hend
  | .emptyTable gap =>
    simp only [Written.tokens,List.length_cons,List.length_nil] at hf
    obtain ⟨fuel,rfl⟩ : ∃ k, fuel = k + 1 := Nat.exists_eq_add_one.2 (by omega)
    rw [Written.depth,Nat.mul_one] at hroom
    have hend :
        (flowEntries c.inner true (fuel + 1)).run ⟨.flowMappingEnd :: rest,
          nodes.push default,anchors⟩ =
        .ok ([],⟨rest,nodes.push default ++ ([] : List Node),anchors⟩) := by
      rw [appendList_nil]
      exact run_flowEntries_end true fuel
    simp only [Written.tokens,Written.nodes]
    exact run_mapping block indentless hroom hend
  | .list items =>
    simp only [Written.tokens,List.length_cons] at hf
    rw [Written.depth,Nat.mul_succ] at hroom
    have hinner : callsPerCollection * items.depth ≤ c.inner.room := Nat.le_sub_of_add_le hroom
    have hitems := run_items items c.inner hinner true fuel (by omega) rest (nodes.push default)
    rw [Array.size_push] at hitems
    simp only [Written.tokens,Written.nodes]
    exact run_sequence block indentless (Nat.le_of_add_left_le hroom) hitems
  | .table entries =>
    simp only [Written.tokens,List.length_cons] at hf
    rw [Written.depth,Nat.mul_succ] at hroom
    have hinner : callsPerCollection * entries.depth ≤ c.inner.room := Nat.le_sub_of_add_le hroom
    have hentries :=
      run_entries entries c.inner hinner true fuel (by omega) rest (nodes.push default)
    rw [Array.size_push] at hentries
    simp only [Written.tokens,Written.nodes]
    exact run_mapping block indentless (Nat.le_of_add_left_le hroom) hentries

theorem run_items (items : Items) (c : Context) (hroom : callsPerCollection * items.depth ≤ c.room)
    (first : Bool) (fuel : Nat) (hf : 2 * items.tokens.length ≤ fuel)
    (rest : List Token) (nodes : Array Node) :
    (flowItems c first fuel).run ⟨lead first ++ (items.tokens ++ rest),nodes,anchors⟩ =
      .ok (items.numbers nodes.size,⟨rest,nodes ++ items.nodes nodes.size,anchors⟩) := by
  match items with
  | .last before item after =>
    obtain ⟨t,more,hopening,ht⟩ := exists_opening item
    simp only [Items.tokens,List.length_append,List.length_singleton] at hf
    obtain ⟨fuel,rfl⟩ : ∃ k, fuel = k + 2 := Nat.exists_eq_add_of_le' (by omega)
    have hitem := run_written item c (by rwa [Items.depth] at hroom) false false
      (fuel + 1) (by omega)
      (.flowSequenceEnd :: rest) nodes
    simp only [Items.tokens,Items.nodes,Items.numbers,List.append_assoc,List.singleton_append]
    rw [hopening] at hitem ⊢
    exact run_flowItems_more first ht hitem (run_flowItems_end false fuel)
  | .more before item after others =>
    obtain ⟨t,more,hopening,ht⟩ := exists_opening item
    simp only [Items.tokens,List.length_append,List.length_cons] at hf
    obtain ⟨fuel,rfl⟩ : ∃ k, fuel = k + 1 := Nat.exists_eq_add_of_le' (by omega)
    rw [Items.depth,← Nat.mul_max_mul_left,Nat.max_le] at hroom
    have hitem := run_written item c hroom.1 false false fuel (by omega)
      (.flowEntry :: (others.tokens ++ rest)) nodes
    have hmore :=
      run_items others c hroom.2 false fuel (by omega) rest (nodes ++ item.nodes nodes.size)
    rw [size_appendList,appendList_appendList] at hmore
    simp only [Items.tokens,Items.nodes,Items.numbers,List.append_assoc,List.cons_append]
    rw [hopening] at hitem ⊢
    exact run_flowItems_more first ht hitem hmore

theorem run_entries (entries : Entries) (c : Context)
    (hroom : callsPerCollection * entries.depth ≤ c.room) (first : Bool) (fuel : Nat)
    (hf : 2 * entries.tokens.length ≤ fuel)
    (rest : List Token) (nodes : Array Node) :
    (flowEntries c first fuel).run ⟨lead first ++ (entries.tokens ++ rest),nodes,anchors⟩ =
      .ok (entries.numbers nodes.size,⟨rest,nodes ++ entries.nodes nodes.size,anchors⟩) := by
  match entries with
  | .last label value after =>
    obtain ⟨t,more,hopening,ht⟩ := exists_opening value
    simp only [Entries.tokens,List.length_append,List.length_cons,List.length_nil] at hf
    obtain ⟨fuel,rfl⟩ : ∃ k, fuel = k + 3 := Nat.exists_eq_add_of_le' (by omega)
    have hvalue := run_written value c (by rwa [Entries.depth] at hroom) false false
      (fuel + 1) (by omega)
      (.flowMappingEnd :: rest) (nodes.push (Quotation.node label.key))
    rw [Array.size_push,push_append] at hvalue
    simp only [Entries.tokens,Entries.nodes,Entries.numbers,List.cons_append,
      List.append_assoc,List.nil_append]
    rw [hopening] at hvalue ⊢
    exact run_flowEntries_more first ht hvalue (run_flowEntries_end false (fuel + 1))
  | .more label value after others =>
    obtain ⟨t,more,hopening,ht⟩ := exists_opening value
    simp only [Entries.tokens,List.length_append,List.length_cons] at hf
    obtain ⟨fuel,rfl⟩ : ∃ k, fuel = k + 3 := Nat.exists_eq_add_of_le' (by omega)
    rw [Entries.depth,← Nat.mul_max_mul_left,Nat.max_le] at hroom
    have hvalue := run_written value c hroom.1 false false (fuel + 1) (by omega)
      (.flowEntry :: (others.tokens ++ rest)) (nodes.push (Quotation.node label.key))
    rw [Array.size_push,push_append] at hvalue
    have hmore := run_entries others c hroom.2 false (fuel + 2) (by omega) rest
      (nodes ++ Quotation.node label.key :: value.nodes (nodes.size + 1))
    rw [size_appendList,List.length_cons,Nat.add_comm (List.length _) 1,← Nat.add_assoc,
      appendList_appendList] at hmore
    simp only [Entries.tokens,Entries.nodes,Entries.numbers,List.cons_append,List.append_assoc]
    rw [hopening] at hvalue ⊢
    exact run_flowEntries_more first ht hvalue hmore

end

theorem run_single (w : Written) {room : Nat}
    (hroom : callsPerCollection * w.depth ≤ room) (fuel : Nat)
    (hf : 2 * w.tokens.length ≤ fuel) : (single room fuel).run ⟨w.tokens,#[],[]⟩ =
      .ok (some 0,⟨[],(w.nodes 0).toArray,[]⟩) := by
  obtain ⟨t,more,hopening,ht⟩ := exists_opening w
  have hnode : (node ⟨defaultHandles,room⟩ true false fuel).run ⟨w.tokens ++ [],#[],[]⟩ =
      .ok (0,⟨[],(#[] : Array Node) ++ w.nodes 0,[]⟩) :=
        run_written w _ hroom true false fuel hf [] #[]
  have hnodes : (#[] : Array Node) ++ w.nodes 0 = (w.nodes 0).toArray :=
    Array.toList_inj.1 (by simp)
  rw [List.append_nil,hnodes] at hnode
  have hexplicit : startsExplicit (t :: more) = false := by
    cases t with
    | scalar text plain | brokenScalar | flowSequenceStart | flowMappingStart => rfl
    | _ => cases ht
  unfold single
  rw [run_get_bind]
  dsimp only
  rw [hopening] at hnode ⊢
  dsimp only [List.isEmpty_cons]
  rw [hexplicit]
  change StateT.run (node ⟨defaultHandles,room⟩ true false fuel >>= _) _ = _
  rw [run_bind_of_ok hnode]
  rfl

end Composer

/-- A plain document of a table is composed of the nodes of its value. -/
theorem compose_spell {w : Json.Document} (hbefore : w.before.isPlain = true)
    (hvalue : w.value.isPlain = true)
    (hafter : w.after.isPlain = true) (htable : isTable w.value = true) {room : Nat}
    (hroom : Composer.callsPerCollection * w.value.depth ≤ room) :
    compose room (w.spell Gap.lines) = .ok (some ⟨(w.value.nodes 0).toArray,0⟩) := by
  have htokens := tokens_spell hbefore hvalue hafter htable
  have hsingle := Composer.run_single w.value hroom (3 * w.value.tokens.length + 4) (by omega)
  unfold compose
  rw [htokens]
  change ((Composer.single room (3 * w.value.tokens.length + 4)).run ⟨w.value.tokens,#[],[]⟩ >>=
    _) = _
  rw [hsingle]
  rfl

end OperationHooks.Yaml
