import RaftTesting.Node.Pending

namespace RaftTesting

/-- BasicStatus, with the embedded HardState and SoftState as fields. -/
structure BasicStatus where
  id : Nat
  hardState : HardState
  softState : SoftState
  applied : Nat
  leadTransferee : Nat
  deriving DecidableEq

/-- The Progress of a Status is nil on a node that does not lead. -/
structure Status where
  basic : BasicStatus
  config : TrackerConfig
  progress : Option ProgressMap
  deriving DecidableEq

def Inflights.clone (i : Inflights) : Inflights := { i with buffer := []++i.buffer }

namespace Raft

/-- Visit runs over the tracked ids in ascending order. -/
def getProgressCopy (r : Raft) : ProgressMap :=
  r.prs.progress.pairs.foldl (fun m p =>
    m.insert p.1 { p.2 with inflights := p.2.inflights.clone }) ∅

def getBasicStatus (r : Raft) : BasicStatus where
  id := r.id
  hardState := r.hardState
  softState := r.softState
  applied := r.raftLog.applied
  leadTransferee := r.leadTransferee

def getStatus (r : Raft) : Status :=
  let basic := r.getBasicStatus
  { basic := basic
    config := r.prs.config.clone
    progress := if basic.softState.raftState=.stateLeader then some r.getProgressCopy else none }

end Raft

namespace Raft

theorem getProgressCopy_eq (r : Raft) : r.getProgressCopy=r.prs.progress := by
  apply SortedMap.ext
  intro id
  have hcopy := SortedMap.get?_foldl_insert (fun pr : Progress => { pr with
    inflights := pr.inflights.clone }) r.prs.progress.sorted ∅ id
  rw [SortedMap.get?_empty,Option.or_none] at hcopy
  refine hcopy.trans ?_
  exact Option.map_id'

/-- A status tells the configuration of the node up to AutoLeave, which Clone forgets, and on
a leader the progress of every peer. -/
theorem getStatus_exact (r : Raft) :
    r.getStatus.config.voters=r.prs.config.voters ∧
    r.getStatus.config.learners=r.prs.config.learners ∧
    r.getStatus.config.learnersNext=r.prs.config.learnersNext ∧
    (r.getStatus.config=r.prs.config ↔ r.prs.config.autoLeave=false) ∧
    (∀ p : ProgressTracker, ({ p with config := r.getStatus.config } : ProgressTracker).confState=
      r.prs.confState ↔ r.prs.config.autoLeave=false) ∧
    (r.state=.stateLeader → ∃ m, r.getStatus.progress=some m ∧
      ∀ id, m.get? id=r.prs.progress.get? id) := by
  have hleave : r.getStatus.config.autoLeave=false := rfl
  refine ⟨rfl,rfl,rfl,?_,?_,?_⟩
  · constructor
    · intro h
      rw [← h,hleave]
    · intro h
      change (⟨_,false,_,_⟩ : TrackerConfig)=r.prs.config
      rw [← h]
  · intro p
    constructor
    · intro h
      exact (congrArg ConfState.autoLeave h).symm.trans hleave
    · intro h
      change (⟨_,_,_,_,false⟩ : ConfState)=r.prs.confState
      rw [← h]
      rfl
  · intro hlead
    have hprogress : r.getStatus.progress=some r.getProgressCopy := if_pos hlead
    rw [getProgressCopy_eq] at hprogress
    exact ⟨_,hprogress,fun _ => rfl⟩

end Raft

namespace Session

section

local instance statusWire : Raftpb := Wire.joint

/-- Nodes 2 and 3 are added at once, through a joint configuration that is left by itself. -/
def twoMore : ConfChangeV2 := { changes := [⟨.addNode,2⟩,⟨.addNode,3⟩] }

/-- The change is proposed by the only voter, committed and applied. -/
def widened : List Act :=
  [.step { type := .msgHup, toId := 1 },
  .step (Raft.proposal { (default : Entry) with
    type := .entryConfChangeV2, data := Wire.marshalConfChangeV2 twoMore }),
  .ready,.save,.append,.advance,
  .ready,.save,.append,.applyConfChange twoMore]

/-- The leader is in a joint configuration that it is going to leave by itself, and its
status denies it. -/
theorem getStatus_widened : ∃ x y : Session, x.Start ∧ x.Along Fits widened ∧
    x.run widened=.ok y ∧ y.rn.raft.state=.stateLeader ∧
    y.rn.raft.prs.config.autoLeave=true ∧ y.rn.raft.getStatus.config.autoLeave=false ∧
    y.rn.raft.getStatus.config≠y.rn.raft.prs.config := by
  obtain ⟨rn,y,hrn,hfits,hy,hlead,hleave,hne⟩ : ∃ rn y, RawNode.newRawNode Raft.soloConfig []=.ok rn ∧
      Along Fits { rn := rn } widened ∧ run { rn := rn } widened=.ok y ∧
      y.rn.raft.state=.stateLeader ∧ y.rn.raft.prs.config.autoLeave=true ∧
      y.rn.raft.getStatus.config≠y.rn.raft.prs.config :=
    ⟨_,_,rfl,by decide +kernel,rfl,by decide +kernel,by decide +kernel,by decide +kernel⟩
  exact ⟨_,y,.fresh ⟨by decide,by decide⟩ hrn,hfits,hy,hlead,hleave,rfl,hne⟩

end

end Session

end RaftTesting
