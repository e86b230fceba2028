import RaftTesting.ConfChange.Changer

namespace RaftTesting

/-- The operations that create the outgoing config, and those that turn it into
the incoming one. -/
def toConfChangeSingle (cs : ConfState) : List ConfChangeSingle × List ConfChangeSingle :=
  (cs.votersOutgoing.map (ConfChangeSingle.mk .addNode),
    cs.votersOutgoing.map (ConfChangeSingle.mk .removeNode)++
    cs.voters.map (ConfChangeSingle.mk .addNode)++
    cs.learners.map (ConfChangeSingle.mk .addLearnerNode)++
    cs.learnersNext.map (ConfChangeSingle.mk .addLearnerNode))

namespace Changer

def withTracked (c : Changer) (t : Tracked) : Changer :=
  { c with tracker := { c.tracker with config := t.cfg, progress := t.prs } }

/-- chain over Simple calls with one change each. -/
def chainSimple (c : Changer) (ccs : List ConfChangeSingle) : Except ConfErr Changer :=
  ccs.foldlM (fun c cc => do
    let t ← c.simple [cc]
    .ok (c.withTracked t)) c

def restore (c : Changer) (cs : ConfState) : Except ConfErr Tracked := do
  let (outgoing,incoming) := toConfChangeSingle cs
  if outgoing.isEmpty then do
    let c ← c.chainSimple incoming
    .ok ⟨c.tracker.config,c.tracker.progress⟩
  else do
    let c ← c.chainSimple outgoing
    c.enterJoint cs.autoLeave incoming

end Changer

end RaftTesting
