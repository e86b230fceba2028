import RaftTesting.Quorum.Majority

namespace RaftTesting

/-- quorum.JointConfig: the incoming half is Voters[0], the outgoing one Voters[1]. -/
structure JointConfig where
  incoming : MajorityConfig
  outgoing : MajorityConfig
  deriving DecidableEq

namespace JointConfig

/-- The voters of both halves, in ascending order. -/
def ids (c : JointConfig) : IdSet :=
  (MajorityConfig.slice c.outgoing).foldl IdSet.add
    ((MajorityConfig.slice c.incoming).foldl IdSet.add ∅)

@[simp] theorem contains_ids (c : JointConfig) (id : Nat) :
    c.ids.contains id=(MajorityConfig.has c.incoming id || MajorityConfig.has c.outgoing id) := by
  simp only [ids,IdSet.contains_foldl_add,MajorityConfig.mem_slice,IdSet.contains_empty,Bool.or_false]
  cases MajorityConfig.has c.incoming id <;> cases MajorityConfig.has c.outgoing id <;> rfl

def committedIndex (c : JointConfig) (l : Nat → Option Nat) : Nat :=
  let idx0 := MajorityConfig.committedIndex c.incoming l
  let idx1 := MajorityConfig.committedIndex c.outgoing l
  if idx0 < idx1 then idx0 else idx1

def voteResult (c : JointConfig) (votes : SortedMap Bool) : VoteResult :=
  let r1 := MajorityConfig.voteResult c.incoming votes
  let r2 := MajorityConfig.voteResult c.outgoing votes
  if r1=r2 then r1
  else if r1=.voteLost ∨ r2=.voteLost then .voteLost
  else .votePending

/-- The ids satisfying S carry a decision: a majority of each non-empty half. -/
def QuorumOf (c : JointConfig) (S : Nat → Prop) : Prop :=
  (MajorityConfig.len c.incoming=0 ∨ MajorityOf (MajorityConfig.ids c.incoming) S) ∧
  (MajorityConfig.len c.outgoing=0 ∨ MajorityOf (MajorityConfig.ids c.outgoing) S)

/-- At least one half has a voter. -/
def NonEmpty (c : JointConfig) : Prop := ∃ id, c.ids.contains id=true

theorem voteResult_won (c : JointConfig) (votes : SortedMap Bool) :
    c.voteResult votes=.voteWon ↔ c.QuorumOf (fun id => votes.get? id=some true) := by
  simp only [QuorumOf,← MajorityConfig.voteResult_won,voteResult]
  cases MajorityConfig.voteResult c.incoming votes <;>
    cases MajorityConfig.voteResult c.outgoing votes <;> simp

theorem QuorumOf.mono {c : JointConfig} {S T : Nat → Prop} (h : c.QuorumOf S)
    (hs : ∀ x, S x → T x) : c.QuorumOf T :=
  ⟨h.1.imp id (fun q => q.mono (fun x _ hx => hs x hx)),
    h.2.imp id (fun q => q.mono (fun x _ hx => hs x hx))⟩

/-- Two decisions under one configuration share a voter. -/
theorem QuorumOf.overlap {c : JointConfig} {S T : Nat → Prop} (hc : c.NonEmpty)
    (h : c.QuorumOf S) (h' : c.QuorumOf T) :
    ∃ x, c.ids.contains x=true ∧ S x ∧ T x := by
  obtain ⟨id,hid⟩ := hc
  rw [contains_ids,Bool.or_eq_true] at hid
  have hlen : ∀ m : MajorityConfig, MajorityConfig.has m id=true → MajorityConfig.len m≠0 := by
    intro m hm h0
    rw [(MajorityConfig.len_eq_zero m).mp h0 id] at hm
    exact Bool.noConfusion hm
  rcases hid with hid | hid
  · obtain ⟨x,hx,hs,ht⟩ := (h.1.resolve_left (hlen _ hid)).overlap
      (h'.1.resolve_left (hlen _ hid))
    exact ⟨x,by simp [(MajorityConfig.mem_ids _ _).mp hx],hs,ht⟩
  · obtain ⟨x,hx,hs,ht⟩ := (h.2.resolve_left (hlen _ hid)).overlap
      (h'.2.resolve_left (hlen _ hid))
    exact ⟨x,by simp [(MajorityConfig.mem_ids _ _).mp hx],hs,ht⟩

/-- Whatever index CommittedIndex returns, a quorum has acknowledged it. -/
theorem committedIndex_quorum (c : JointConfig) (l : Nat → Option Nat) (i : Nat)
    (hi : 0 < i) (hc : i≤c.committedIndex l) :
    c.QuorumOf (fun id => ∃ v, l id=some v ∧ i≤v) := by
  have hle : i≤MajorityConfig.committedIndex c.incoming l ∧
      i≤MajorityConfig.committedIndex c.outgoing l := by
    simp only [committedIndex] at hc
    split_ifs at hc <;> omega
  exact ⟨MajorityConfig.committedIndex_majority _ l i hi hle.1,
    MajorityConfig.committedIndex_majority _ l i hi hle.2⟩

end JointConfig

end RaftTesting
