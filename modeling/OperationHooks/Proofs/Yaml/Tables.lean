import OperationHooks.Proofs.Yaml.Making
import OperationHooks.Proofs.Yaml.Nodes
import OperationHooks.Proofs.Yaml.Numbers

set_option autoImplicit false

namespace OperationHooks.Json

open Yaml (Node)

/-- What a string is taken for: with half of a pair in it, it has no characters. -/
def Quotation.reading (q : Quotation) : Datum :=
  match (Quotation.pieces q).mapM id with
  | some text => .text (String.ofList text)
  | none => .brokenText

def Written.reading : Written → Datum
  | .word w => w.datum
  | .number n => n.reading
  | .quoted q => Quotation.reading q
  | .emptyList _ | .list _ => .list []
  | .emptyTable _ | .table _ => .table []

def Entries.pairs : Entries → List (Label × Written)
  | .last label value _ => [(label,value)]
  | .more label value _ rest => (label,value) :: rest.pairs

def Written.pairs : Written → List (Label × Written)
  | .table entries => entries.pairs
  | _ => []

def entryOf (part : Label × Written) : Datum × Datum :=
  (.text (Quotation.value part.1.key),part.2.datum)

theorem Entries.data_eq (entries : Entries) : entries.data = entries.pairs.map entryOf := by
  cases entries with
  | last label value after => rw [Entries.data,Entries.pairs]; rfl
  | more label value after rest =>
    rw [Entries.data,Entries.pairs,List.map_cons,Entries.data_eq rest]; rfl

theorem Written.datum_of_isTable {w : Written} (h : Yaml.isTable w = true) :
    w.datum = .table (w.pairs.map entryOf) := by
  cases w with
  | emptyTable gap => rw [Written.datum]; rfl
  | table entries => rw [Written.datum,Written.pairs,Entries.data_eq]
  | _ => cases h

end OperationHooks.Json

namespace OperationHooks.Yaml

open Json

variable {nodes front back : List Node} {n : Node} {k : Nat}

def Sits (nodes : List Node) (k : Nat) (part : List Node) : Prop :=
  ∃ before after, nodes = before ++ (part ++ after) ∧ before.length = k

theorem Sits.append {part more : List Node} (h : Sits nodes k (part ++ more)) :
    Sits nodes k part ∧ Sits nodes (k + part.length) more := by
  obtain ⟨before,after,rfl,rfl⟩ := h
  exact ⟨⟨before,more ++ after,by simp,rfl⟩,⟨before ++ part,after,by simp,List.length_append⟩⟩

theorem Sits.cons {part : List Node} (h : Sits nodes k (n :: part)) :
    nodes[k]? = some n ∧ Sits nodes (k + 1) part := by
  obtain ⟨before,after,rfl,rfl⟩ := h
  exact ⟨by simp,⟨before ++ [n],after,by simp,by simp⟩⟩

theorem getD_of_getElem? (h : nodes[k]? = some n) : nodes.toArray.getD k default = n := by
  rw [Array.getD_eq_getD_getElem?,List.getElem?_toArray,h]
  rfl

theorem exists_of_mem_left {α β : Type} {R : α → β → Prop} {xs : List α} {ys : List β}
    (h : List.Forall₂ R xs ys)
    {x : α} (hx : x ∈ xs) : ∃ y ∈ ys, R x y := by
  induction h with
  | nil => cases hx
  | @cons x' y xs ys hxy _ ih =>
    rcases List.mem_cons.1 hx with rfl | hx
    · exact ⟨y,List.mem_cons_self,hxy⟩
    · obtain ⟨y',hy',hr⟩ := ih hx
      exact ⟨y',List.mem_cons_of_mem _ hy',hr⟩

/-- What is told of the same list entry by entry is told of the entries of two others. -/
theorem forall₂_meet {α β γ : Type} {R : α → β → Prop} {S : α → γ → Prop} {xs : List α}
    {ys : List β} {zs : List γ}
    (h : List.Forall₂ R xs ys) (h' : List.Forall₂ S xs zs) :
      List.Forall₂ (fun y z => ∃ x, R x y ∧ S x z) ys zs := by
  induction h generalizing zs with
  | nil => cases h'; exact .nil
  | cons hxy _ ih =>
    cases h' with
    | cons hxz h' => exact .cons ⟨_,hxy,hxz⟩ (ih h')

theorem exists_node {w : Written} (h : w.isPlain = true) (k : Nat) :
    ∃ n more, w.nodes k = n :: more ∧ n.shallow = w.reading := by
  cases w with
  | word w =>
    refine ⟨_,_,by rw [Written.nodes],?_⟩
    rw [Node.shallow,scalarDatum_word]
    rfl
  | number n =>
    rw [Written.isPlain] at h
    refine ⟨_,_,by rw [Written.nodes],?_⟩
    rw [Node.shallow,scalarDatum_text h]
    rfl
  | quoted q =>
    refine ⟨_,_,by rw [Written.nodes],?_⟩
    rw [Written.reading,Quotation.node,Quotation.reading]
    cases (Quotation.pieces q).mapM id <;> rfl
  | emptyList gap | list items | emptyTable gap | table entries =>
    exact ⟨_,_,by rw [Written.nodes],rfl⟩

theorem shallow_node (q : Quotation) : (Quotation.node q).shallow = Quotation.reading q ∧
    (Quotation.node q).tag = .str := by
  rw [Quotation.node,Quotation.reading]
  cases (Quotation.pieces q).mapM id <;> exact ⟨rfl,rfl⟩

theorem parts_entries (entries : Entries) {k : Nat} (hplain : entries.isPlain = true)
    (h : Sits nodes k (entries.nodes k)) :
    List.Forall₂ (fun entry part => nodes[entry.1]? = some (Quotation.node part.1.key) ∧
      ∃ n, nodes[entry.2]? = some n ∧ n.shallow = part.2.reading) (entries.numbers k)
        entries.pairs := by
  match entries with
  | .last label value after =>
    simp only [Entries.isPlain,Bool.and_eq_true] at hplain
    rw [Entries.nodes] at h
    obtain ⟨hkey,hvalue⟩ := h.cons
    obtain ⟨n,more,hnodes,hn⟩ := exists_node hplain.1.2 (k + 1)
    rw [hnodes] at hvalue
    rw [Entries.numbers,Entries.pairs]
    exact .cons ⟨hkey,n,hvalue.cons.1,hn⟩ .nil
  | .more label value after rest =>
    simp only [Entries.isPlain,Bool.and_eq_true] at hplain
    rw [Entries.nodes] at h
    obtain ⟨hkey,hrest⟩ := h.cons
    obtain ⟨hvalue,hrest⟩ := hrest.append
    obtain ⟨n,more,hnodes,hn⟩ := exists_node hplain.1.1.2 (k + 1)
    rw [hnodes] at hvalue
    rw [Entries.numbers,Entries.pairs]
    exact .cons ⟨hkey,n,hvalue.cons.1,hn⟩ (parts_entries rest hplain.2 hrest)

theorem simple_mapping {entries : Entries} (hplain : entries.isPlain = true)
    (h : Sits nodes k (entries.nodes k)) :
    (Node.mapping .map (entries.numbers k)).IsSimple nodes.toArray := by
  have hparts := parts_entries entries hplain h
  refine .mapping fun entry hmem => ?_
  obtain ⟨part,-,hkey,-⟩ := exists_of_mem_left hparts hmem
  rw [getD_of_getElem? hkey]
  exact (shallow_node part.1.key).2

theorem simple_quotation (q : Quotation) : (Quotation.node q).IsSimple nodes.toArray := by
  rw [Quotation.node]
  cases (Quotation.pieces q).mapM id with
  | some text => exact .scalar (by decide) rfl
  | none => exact .broken

mutual

theorem simple_written (w : Written) (hplain : w.isPlain = true) {k : Nat}
    (h : Sits nodes k (w.nodes k)) :
    ∀ n ∈ w.nodes k, n.IsSimple nodes.toArray := by
  match w with
  | .word w =>
    rw [Written.nodes]
    intro n hn
    rw [List.mem_singleton.1 hn]
    exact .scalar (by cases w <;> decide) (scalarDatum_word w)
  | .number number =>
    rw [Written.isPlain] at hplain
    rw [Written.nodes]
    intro n hn
    rw [List.mem_singleton.1 hn]
    refine .scalar ?_ (scalarDatum_text hplain)
    rw [resolve_text]
    split
    · decide
    · split <;> decide
  | .quoted q =>
    rw [Written.nodes]
    intro n hn
    rw [List.mem_singleton.1 hn]
    exact simple_quotation q
  | .emptyList gap =>
    rw [Written.nodes]
    intro n hn
    rw [List.mem_singleton.1 hn]
    exact .sequence []
  | .emptyTable gap =>
    rw [Written.nodes]
    intro n hn
    rw [List.mem_singleton.1 hn]
    exact .mapping nofun
  | .list items =>
    rw [Written.isPlain] at hplain
    rw [Written.nodes] at h ⊢
    intro n hn
    rcases List.mem_cons.1 hn with rfl | hn
    · exact .sequence _
    · exact simple_items items hplain h.cons.2 n hn
  | .table entries =>
    rw [Written.isPlain] at hplain
    rw [Written.nodes] at h ⊢
    intro n hn
    rcases List.mem_cons.1 hn with rfl | hn
    · exact simple_mapping hplain h.cons.2
    · exact simple_entries entries hplain h.cons.2 n hn

theorem simple_items (items : Items) (hplain : items.isPlain = true) {k : Nat}
    (h : Sits nodes k (items.nodes k)) :
    ∀ n ∈ items.nodes k, n.IsSimple nodes.toArray := by
  match items with
  | .last before item after =>
    simp only [Items.isPlain,Bool.and_eq_true] at hplain
    rw [Items.nodes] at h ⊢
    exact simple_written item hplain.1.2 h
  | .more before item after rest =>
    simp only [Items.isPlain,Bool.and_eq_true] at hplain
    rw [Items.nodes] at h ⊢
    intro n hn
    rcases List.mem_append.1 hn with hn | hn
    · exact simple_written item hplain.1.1.2 h.append.1 n hn
    · exact simple_items rest hplain.2 h.append.2 n hn

theorem simple_entries (entries : Entries) (hplain : entries.isPlain = true) {k : Nat}
    (h : Sits nodes k (entries.nodes k)) : ∀ n ∈ entries.nodes k, n.IsSimple nodes.toArray := by
  match entries with
  | .last label value after =>
    simp only [Entries.isPlain,Bool.and_eq_true] at hplain
    rw [Entries.nodes] at h ⊢
    intro n hn
    rcases List.mem_cons.1 hn with rfl | hn
    · exact simple_quotation label.key
    · exact simple_written value hplain.1.2 h.cons.2 n hn
  | .more label value after rest =>
    simp only [Entries.isPlain,Bool.and_eq_true] at hplain
    rw [Entries.nodes] at h ⊢
    intro n hn
    rcases List.mem_cons.1 hn with rfl | hn
    · exact simple_quotation label.key
    · rcases List.mem_append.1 hn with hn | hn
      · exact simple_written value hplain.1.1.2 h.cons.2.append.1 n hn
      · exact simple_entries rest hplain.2 h.cons.2.append.2 n hn

end

theorem exists_table {w : Written} {room : Nat} (hplain : w.isPlain = true)
    (htable : isTable w = true) :
    ∃ found, (Document.mk (w.nodes 0).toArray 0).datum room = .ok (.table found) ∧
    List.Forall₂ (fun pair part =>
      Resembles pair.1 (Quotation.reading part.1.key) ∧ Resembles pair.2 part.2.reading)
        found w.pairs := by
  have hsits : Sits (w.nodes 0) 0 (w.nodes 0) := ⟨[],[],by simp,rfl⟩
  have hsimple : ∀ k, ((w.nodes 0).toArray.getD k default).IsSimple (w.nodes 0).toArray := by
    intro k
    cases hk : (w.nodes 0)[k]? with
    | some n =>
      rw [getD_of_getElem? hk]
      exact simple_written w hplain hsits n (List.mem_of_getElem? hk)
    | none =>
      rw [Array.getD_eq_getD_getElem?,List.getElem?_toArray,hk]
      exact .scalar (by decide) rfl
  obtain ⟨numbers,more,hnodes,hparts⟩ : ∃ numbers more, w.nodes 0 = .mapping .map numbers :: more ∧
      List.Forall₂ (fun entry part => (w.nodes 0)[entry.1]? = some (Quotation.node part.1.key) ∧
        ∃ n, (w.nodes 0)[entry.2]? = some n ∧ n.shallow = part.2.reading) numbers w.pairs := by
    cases w with
    | emptyTable gap => exact ⟨[],[],by rw [Written.nodes],.nil⟩
    | table entries =>
      rw [Written.isPlain] at hplain
      have htail : Sits ((Written.table entries).nodes 0) 1 (entries.nodes 1) := by
        rw [Written.nodes] at hsits ⊢
        exact hsits.cons.2
      exact ⟨_,_,by rw [Written.nodes],parts_entries entries hplain htail⟩
    | _ => cases htable
  have hroot : (w.nodes 0).toArray.getD 0 default = .mapping .map numbers :=
    getD_of_getElem? (by rw [hnodes]; rfl)
  have hlt : 0 < (w.nodes 0).toArray.size := by
    rw [List.size_toArray,hnodes]
    exact Nat.succ_pos _
  have hbounds : ∀ entry ∈ numbers, entry.1 < (w.nodes 0).toArray.size ∧
      entry.2 < (w.nodes 0).toArray.size := by
    intro entry hmem
    obtain ⟨part,-,hkey,n,hvalue,-⟩ := exists_of_mem_left hparts hmem
    rw [List.size_toArray]
    exact ⟨(List.getElem?_eq_some_iff.1 hkey).1,(List.getElem?_eq_some_iff.1 hvalue).1⟩
  obtain ⟨found,hfound,hpairs⟩ := exists_datum hsimple hroot hlt hbounds
  refine ⟨found,hfound,(forall₂_meet hpairs hparts).imp fun pair part h => ?_⟩
  obtain ⟨entry,⟨hk,hv⟩,hkey,n,hvalue,hn⟩ := h
  rw [getD_of_getElem? hkey,(shallow_node _).1] at hk
  rw [getD_of_getElem? hvalue,hn] at hv
  exact ⟨hk,hv⟩

/-- A plain document of a table is read as a table with an entry for each label and its value. -/
theorem read_spell {w : Json.Document} (hbefore : w.before.isPlain = true)
    (hvalue : w.value.isPlain = true)
    (hafter : w.after.isPlain = true) (htable : isTable w.value = true) {room : Nat}
    (hroom : Composer.callsPerCollection * w.value.depth ≤ room) :
    ∃ found, read room (String.ofList (w.spell Gap.lines)) = .ok (.table found) ∧
    List.Forall₂ (fun pair part =>
      Resembles pair.1 (Quotation.reading part.1.key) ∧ Resembles pair.2 part.2.reading) found
        w.value.pairs := by
  obtain ⟨found,hfound,hpairs⟩ := exists_table hvalue htable
  refine ⟨found,?_,hpairs⟩
  rw [read,String.toList_ofList,compose_spell hbefore hvalue hafter htable hroom]
  exact hfound

end OperationHooks.Yaml
