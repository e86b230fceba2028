import RaftTesting.Cluster.Simulation
import RaftTesting.ConfChange.Determined
import RaftTesting.Consensus.Succession

namespace RaftTesting

open Consensus

/-- An entry leads from one configuration to the next: some node with the first one, whose
members are tracked as they should be, would apply it. -/
def Entry.Leads [Raftpb] (cfg : TrackerConfig) (e : Entry) (cfg' : TrackerConfig) : Prop :=
  ∃ (c : Changer) (cc : ConfChangeV2) (t : Tracked), c.tracker.config=cfg ∧ c.tracked.Formed ∧
    Raft.confChangeOf e=.ok (some cc) ∧ c.change cc=.ok t ∧ t.cfg=cfg'

theorem JointConfig.nonEmpty_of_incoming {c : JointConfig} (h : MajorityConfig.len c.incoming≠0) :
    c.NonEmpty := by
  by_contra hne
  refine h ((MajorityConfig.len_eq_zero _).mpr (fun id => ?_))
  by_contra hid
  exact hne ⟨id,by simp [hid]⟩

/-- The configurations that the entries of a log lead to, from the one that the nodes are
started with. -/
def succession [Raftpb] (start : TrackerConfig)
    (hstart : MajorityConfig.len start.voters.incoming≠0) : Succession Entry TrackerConfig where
  conf := Entry.isConf
  next := Entry.Leads
  quorum := fun cfg => cfg.voters.QuorumOf
  start := start
  usable := fun cfg => MajorityConfig.len cfg.voters.incoming≠0
  usable_start := hstart
  usable_next := by
    rintro cfg e cfg' - ⟨c,cc,t,-,hf,-,hc,rfl⟩
    exact (Changer.formed_change hf hc).2
  unique := by
    rintro cfg e cfg₁ cfg₂ ⟨c,cc,t,rfl,hf,hcc,hc,rfl⟩ ⟨c',cc',t',hcfg,hf',hcc',hc',rfl⟩
    cases hcc.symm.trans hcc'
    exact (Changer.change_cfg_eq hf hf' hcfg hc hc').symm
  meet := by
    intro cfg S T hne hS hT
    obtain ⟨v,-,hv⟩ := hS.overlap (JointConfig.nonEmpty_of_incoming hne) hT
    exact ⟨v,hv⟩
  meet_next := by
    rintro cfg e cfg' S T hne ⟨c,cc,t,rfl,hf,-,hc,rfl⟩ hS hT
    exact (Changer.change_adjacent hc).overlap hne (Changer.formed_change hf hc).2 hS hT

end RaftTesting
