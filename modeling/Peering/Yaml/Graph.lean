import Peering.Yaml.Scalar

/-!
# The nodes of a document

Nodes are numbered, and collections hold the numbers of their parts. An alias is
the number of the node that it stands for, so a node may be part of several
collections, and even of itself.
-/

namespace Peering.Yaml

/-- What is written for a node. -/
inductive Content where
  | scalar (text : String)
  | sequence (items : List Nat)
  | mapping (entries : List (Nat × Nat))

/-- A node of a document. -/
structure Node where
  /-- What it is said to be. -/
  tag : Tag
  /-- What is written for it. -/
  content : Content

/-- A node that is not written out. -/
def Node.empty : Node := ⟨.null, .scalar ""⟩

/-- The nodes of a document by their numbers. -/
abbrev Graph := Array Node

namespace Graph

/-- The tag of a node. -/
def tagOf (g : Graph) (n : Nat) : Tag := (g[n]?.getD .empty).tag

/-- What is written for a node. -/
def contentOf (g : Graph) (n : Nat) : Content := (g[n]?.getD .empty).content

/-- The entries of a node, if it is a mapping. -/
def entries? (g : Graph) (n : Nat) : Option (List (Nat × Nat)) :=
  match g.contentOf n with
  | .mapping entries => some entries
  | _ => none

/-- The items of a node, if it is a sequence. -/
def items? (g : Graph) (n : Nat) : Option (List Nat) :=
  match g.contentOf n with
  | .sequence items => some items
  | _ => none

/-- The graph with other content of a node. -/
def withContent (g : Graph) (n : Nat) (content : Content) : Graph :=
  g.modify n fun node => { node with content }

/-- The graph with another tag of a node. -/
def withTag (g : Graph) (n : Nat) (tag : Tag) : Graph :=
  g.modify n fun node => { node with tag }

/-- So many steps are made to find the text of a node. -/
def textSteps : Nat := 980

/-- The text of a node where a scalar is expected. A mapping with a value for its equals sign has
the text of that value, which is looked for in at most so many steps. -/
def scalarText (g : Graph) : Nat → Nat → Except Fault String
  | 0, _ => .error .tooDeep
  | steps + 1, n =>
    match g.contentOf n with
    | .scalar text => .ok text
    | .sequence _ => .error .malformed
    | .mapping entries =>
      match entries.find? (fun e => g.tagOf e.1 = .equals) with
      | some (_, value) => g.scalarText steps value
      | none => .error .malformed

end Graph

end Peering.Yaml
