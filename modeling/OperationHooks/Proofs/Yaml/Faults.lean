import OperationHooks.Proofs.Effect.Keeping
import OperationHooks.Yaml.Value
/-!
Where the faults of values come from. Reading the nodes of a document changes no text and no tag,
apart from that of a default key, so a fault is that of a node of the document: a scalar whose text
its tag does not allow, or a mapping that is taken for the scalar under its default key.
-/
set_option autoImplicit false

namespace OperationHooks.Yaml

open Effect

def Document.node (d : Document) (number : Nat) : Node := d.nodes.getD number default

/-- The faults of the values in a document. -/
inductive Document.HasFault (d : Document) : Fault → Prop where
  | malformed : HasFault d .malformed
  | scalar {number : Nat} {tag : Tag} {text : String} {cause : Fault}
      (h : d.node number = .scalar tag text)
      (hf : scalarDatum tag text = .error cause) : HasFault d cause
  | entry {number value : Nat} {tag tag' : Tag} {entries : List (Nat × Nat)}
      {text : String} {cause : Fault}
      (h : d.node number = .mapping tag entries) (hv : d.node value = .scalar tag' text)
      (hf : scalarDatum tag text = .error cause) : HasFault d cause
  | brokenMoment {number : Nat} (h : d.node number = .brokenScalar .timestamp) :
    HasFault d .noMoment
  | mappedMoment {number : Nat} {entries : List (Nat × Nat)}
      (h : d.node number = .mapping .timestamp entries) :
      HasFault d .collectionAsMoment
  | tooDeep {number : Nat} (h : (d.node number).tag = .default ∨ (d.node number).tag = .merge) :
      HasFault d .tooDeep

/-- A node as it was, apart from its entries; a default key may have become a text. -/
inductive Node.Becomes : Node → Node → Prop where
  | scalar (tag : Tag) (text : String) : Becomes (.scalar tag text) (.scalar tag text)
  | key (text : String) : Becomes (.scalar .default text) (.scalar .str text)
  | broken (tag : Tag) : Becomes (.brokenScalar tag) (.brokenScalar tag)
  | sequence (tag : Tag) (items : List Nat) : Becomes (.sequence tag items) (.sequence tag items)
  | mapping (tag : Tag) (entries entries' : List (Nat × Nat)) :
      Becomes (.mapping tag entries) (.mapping tag entries')

theorem Node.Becomes.refl (n : Node) : n.Becomes n := by cases n <;> constructor

theorem Node.Becomes.isMapping {n : Node} {tag : Tag} {entries : List (Nat × Nat)}
    (h : n.Becomes (.mapping tag entries)) : ∃ entries', n = .mapping tag entries' := by
  cases h
  exact ⟨_,rfl⟩

inductive Document.Stands (d : Document) (number : Nat) : Node → Prop where
  | self {tag : Tag} {text : String} (h : (d.node number).Becomes (.scalar tag text)) :
      Stands d number (.scalar tag text)
  | broken {tag : Tag} (h : d.node number = .brokenScalar tag) : Stands d number (.brokenScalar tag)
  | entry {tag : Tag} {entries : List (Nat × Nat)} {found : Node}
      (h : d.node number = .mapping tag entries)
      (hf : ∀ tag text, found = .scalar tag text → ∃ value tag', d.node value = .scalar tag' text) :
      Stands d number found

namespace Constructor

variable {d : Document} {number : Nat} {α : Type}

end Constructor

end OperationHooks.Yaml
