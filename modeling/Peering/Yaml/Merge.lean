import Peering.Yaml.Graph

/-!
# Merges

A merge puts the entries of other mappings in front of those of a mapping, so that
its own win. The other mappings carry out their merges first. A mapping can be asked
for its entries while it carries out its merges; then only those that are left are
carried out.
-/

namespace Peering.Yaml

/-- Changes nodes of a graph. -/
abbrev GraphChange := StateT Graph (Except Fault)

namespace Graph

/-- The number of merges that are left in a graph. -/
def mergeCount (g : Graph) : Nat :=
  (g.toList.flatMap fun node => match node.content with
    | .mapping entries => entries.filter fun e => g.tagOf e.1 = .merge
    | _ => []).length

/-- The mappings that a merge asks for: the node itself, or the items of a sequence. -/
def mergeSources (g : Graph) (n : Nat) : Except Fault (List Nat) :=
  match g.contentOf n with
  | .mapping _ => .ok [n]
  | .sequence items => .ok items
  | .scalar _ => .error .malformed

/-- The entries of a mapping without the first merge, and what that merge asks for. -/
def splitMerge? (g : Graph) : List (Nat × Nat) → Option (Nat × List (Nat × Nat))
  | [] => none
  | e :: rest =>
    if g.tagOf e.1 = .merge then some (e.2, rest)
    else (g.splitMerge? rest).map fun (source, others) => (source, e :: others)

/-- The graph in which keys that are an equals sign are texts. -/
def nameEquals (g : Graph) (entries : List (Nat × Nat)) : Graph :=
  entries.foldl (fun g e => if g.tagOf e.1 = .equals then g.withTag e.1 .text else g) g

/-- So many mappings may carry out merges one for the other. -/
def mergeRoom : Nat := 980

/-- Carries out the merges of a mapping, given how many mappings may carry out theirs for it. Among
several mappings of one merge, the later ones come first. Every merge is taken out before others are
carried out, so one step more than there are merges suffices. -/
def flatten : Nat → Nat → Nat → GraphChange Unit
  | 0, _, _ => return ()
  | steps + 1, room, n => do
    if room = 0 then throw .tooDeep
    let g ← get
    let some entries := g.entries? n | throw .malformed
    match g.splitMerge? entries with
    | none => set (g.nameEquals entries)
    | some (source, others) =>
      set (g.withContent n (.mapping others))
      let lists ← (← g.mergeSources source).mapM fun m => do
        flatten steps (room - 1) m
        return ((← get).entries? m).getD []
      flatten steps room n
      modify fun g =>
        g.withContent n (.mapping (lists.reverse.flatten ++ (g.entries? n).getD []))

end Graph

end Peering.Yaml
