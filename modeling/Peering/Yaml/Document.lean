import Peering.Yaml.Node
import Peering.Yaml.Unfolding

/-!
# From a source to its value

A source is read as nodes, for which objects are made, which become one value. A
source without a document stands for null.
-/

namespace Peering.Yaml

/-- The value that a source describes. -/
def valueOf (s : Source) : Except Fault Value := do
  match ← nodesOf s with
  | (graph, some root) => return Unfolding.ofRoot (← Construction.ofGraph graph root) root
  | (_, none) => return .null

end Peering.Yaml
