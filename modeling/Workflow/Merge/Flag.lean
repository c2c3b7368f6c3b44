import Workflow.Graph.Path

/-!
# Flagged nodes

The nodes onto which a merge is pending, at every depth.
-/

namespace Workflow.Level

mutual

/-- The paths of the flagged nodes below a path, each node before those in its subflow. -/
def flagged (above : Path) : Level → List Path
  | ⟨nodes, _⟩ => flaggedNodes above nodes

def flaggedNodes (above : Path) : List Node → List Path
  | [] => []
  | ⟨id, _, _, _, some ⟨_, _, _, some sub, combining⟩⟩ :: ns =>
    (if combining then [above ++ [id]] else []) ++ sub.flagged (above ++ [id]) ++
      flaggedNodes above ns
  | n :: ns => (if n.isCombining then [above ++ [n.id]] else []) ++ flaggedNodes above ns

end

end Workflow.Level
