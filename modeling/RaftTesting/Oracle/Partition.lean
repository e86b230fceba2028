import RaftTesting.Cluster.Ledger
import RaftTesting.Node.Election
import RaftTesting.Oracle.Netrix

namespace RaftTesting

open Consensus

namespace Oracle

open Netrix

variable [Netrix]

def livenessTest : Filters :=
  [isMessageBetween 4 1,isMessageBetween 4 3,isMessageBetween 4 5,isMessageBetween 5 1,
    isMessageBetween 5 2]

/-- Replica i can get a vote from replica id. -/
def Hears (fs : Filters) (i id : Nat) : Prop :=
  ∃ m : Message, m.type=.msgVoteResp ∧ m.fromId=id ∧ m.toId=i ∧ drops fs m=false

end Oracle

/-- The schedules of a test: the filters see what is delivered, and the voters stay V. -/
def Cluster.filtered [Oracle.Netrix] (fs : Oracle.Filters) (V : JointConfig) (c : Cluster)
    (_ : Nat) (e : Event) : Bool :=
  c.fixed V && match e with
    | .recv m => !Oracle.Netrix.drops fs m
    | _ => true

/-- The host has not come to lead, and counts only votes that the filters let through. -/
structure Host.Minor [Oracle.Netrix] (fs : Oracle.Filters) (i : Nat) (H : Host) : Prop where
  supported : H.rn.raft.Supported (fun m => m.Stamped ∧
    (m.type=.msgVoteResp → m.toId=i ∧ Oracle.Netrix.drops fs m=false))
  state : H.rn.raft.state≠.stateLeader

namespace Cluster

section

variable [Raftpb] [Oracle.Netrix] {F : Founding} {B : Base Entry} {h : Hist Entry}
  {fs : Oracle.Filters} {V : JointConfig} {c0 c c' : Cluster} {es : List (Nat × Event)}
  {i j : Nat} {e : Event}

theorem minor_act (hr : Realm F B h c) (hal : c.filtered fs V j e=true)
    (hq : ¬V.QuorumOf (fun id => id=i ∨ Oracle.Hears fs i id))
    (hm : ∀ H, c.hosts.get? i=some H → H.Minor fs i) (ha : c.act j e=.ok c') :
    ∀ H, c'.hosts.get? i=some H → H.Minor fs i := by
  rcases act_cases ha with rfl | ⟨H,H',ms,hH,hen,hact,rfl⟩
  · exact hm
  intro J hJ
  rw [SortedMap.get?_insert] at hJ
  split_ifs at hJ with hij
  swap
  · exact hm J hJ
  subst hij
  cases hJ
  obtain ⟨hfix,hpass⟩ := Bool.and_eq_true_iff.mp hal
  have hminor := hm H hH
  have hgiven : ∀ m, e.message H.rn.raft.id=some m → m.Stamped ∧
      (m.type=.msgVoteResp → m.toId=i ∧ Oracle.Netrix.drops fs m=false) := by
    intro m hmsg
    refine ⟨(hr.given hen hmsg).1.2.1,fun ht => ?_⟩
    cases e with
    | recv n =>
      cases hmsg
      simp only [enabled,Bool.and_eq_true,decide_eq_true_eq] at hen
      exact ⟨hen.2,by simpa using hpass⟩
    | call n => cases hmsg; cases n <;> cases ht
    | tick | ready | save | apply | advance => cases hmsg
  have heff := (Host.act_does hact).effect
  have htouch := (Host.act_does hact).effect.touches (fun m hmsg => (hgiven m hmsg).1)
  refine ⟨htouch.supported hgiven hminor.supported,fun hl => ?_⟩
  rcases heff.elected hgiven (fun m hG => hG.1) hminor.supported hl with ⟨hlead,-⟩ | hwon
  · exact hminor.state hlead
  · -- it would have got votes from a quorum that the filters cut off
    obtain ⟨a,hp⟩ := hr.hosts i H hH
    have hid : H.rn.raft.id=i := hp.hosted.core.id
    unfold Raft.Elected at hwon
    rw [voters_of_fixed hfix hH,hid] at hwon
    refine hq (hwon.mono (fun id hid => hid.imp_right ?_))
    rintro ⟨m,⟨-,hv⟩,ht,-,hfrom,-⟩
    exact ⟨m,ht,hfrom,hv ht⟩

theorem minor_run (hr : Realm F B h c)
    (hq : ¬V.QuorumOf (fun id => id=i ∨ Oracle.Hears fs i id))
    (hm : ∀ H, c.hosts.get? i=some H → H.Minor fs i) (he : c.run (filtered fs V) es=some c') :
    ∀ H, c'.hosts.get? i=some H → H.Minor fs i := by
  induction es generalizing c h with
  | nil =>
    cases he
    exact hm
  | cons e es ih =>
    obtain ⟨j,e⟩ := e
    simp only [run] at he
    split_ifs at he with hal
    split at he
    · cases he
    · rename_i c1 hact
      obtain ⟨h1,-,hr1⟩ := hr.step hact
      exact ih hr1 (minor_act hr hal hq hm hact) he

/-- In a founded cluster a replica that the filters cut off from a quorum never leads, whatever
else is delivered and in whatever order. -/
theorem run_minority (hf : c0.Founded F B) (he : c0.run (filtered fs V) es=some c)
    (hq : ¬V.QuorumOf (fun id => id=i ∨ Oracle.Hears fs i id)) {H : Host}
    (hH : c.hosts.get? i=some H) : H.rn.raft.state≠.stateLeader := by
  have hstart : ∀ H, c0.hosts.get? i=some H → H.Minor fs i := by
    intro H hH
    have hs := (hf.hosts i H hH).fresh.state
    refine ⟨fun hs' => ?_,by rw [hs]; decide⟩
    rcases hs' with hs' | hs' <;> cases hs.symm.trans hs'
  exact (minor_run hf.realm hq hstart he H hH).state

end

section

local instance minorityWire : Raftpb := Wire.small

local instance plainMinority : Oracle.Netrix := .plain

def fivePeers : List Peer := [⟨1,[]⟩,⟨2,[]⟩,⟨3,[]⟩,⟨4,[]⟩,⟨5,[]⟩]

def fiveFounding : Founding := ⟨votersOnly [1,2,3,4,5],by decide⟩

def five : Cluster := start Wire.marshalConfChange fivePeers nodeConfig (fun _ => [])

theorem five_founded : five.Founded fiveFounding (bootBase fivePeers) :=
  started_founded fivePeers (by decide +kernel)

/-- The votes of the replicas that LivenessTest keeps apart from replica 4. -/
def apart : SortedMap Bool := (((∅ : SortedMap Bool).insert 1 true).insert 3 true).insert 5 true

theorem livenessTest_four :
    ¬fiveFounding.cfg.voters.QuorumOf (fun id => id=4 ∨ Oracle.Hears Oracle.livenessTest 4 id) := by
  intro hq
  have hrest := (JointConfig.voteResult_won fiveFounding.cfg.voters apart).mp (by decide +kernel)
  obtain ⟨x,-,hx,hx'⟩ := hq.overlap ⟨1,by decide +kernel⟩ hrest
  have hid : x=5 ∨ x=3 ∨ x=1 := by
    unfold apart at hx'
    simp only [SortedMap.get?_insert] at hx'
    split_ifs at hx' with h5 h3 h1
    · exact .inl h5
    · exact .inr (.inl h3)
    · exact .inr (.inr h1)
    · cases hx'
  rcases hx with rfl | ⟨m,-,hfrom,hto,hpass⟩
  · omega
  · rw [← Bool.not_eq_true,Oracle.Netrix.drops_iff] at hpass
    rcases hid with rfl | rfl | rfl <;>
      simp [Oracle.livenessTest,Oracle.Netrix.isMessageBetween_iff,hfrom,hto] at hpass

/-- Replica 4 stands for election, and gets the vote of replica 2. -/
def fourStands : List (Nat × Event) :=
  [(4,.ready),(4,.save),(4,.apply),(4,.apply),(4,.apply),(4,.apply),(4,.apply),(4,.advance),
    (4,.call .campaign),(4,.ready),(4,.save),(4,.advance),
    (2,.recv { type := .msgVote, toId := 2, fromId := 4, term := 2, index := 5, logTerm := 1 }),
    (2,.ready),(2,.save),
    (4,.recv { type := .msgVoteResp, toId := 4, fromId := 2, term := 2 })]

theorem run_minority_four : ∃ c H,
    five.run (filtered Oracle.livenessTest fiveFounding.cfg.voters) fourStands=some c ∧
    c.hosts.get? 4=some H ∧ H.rn.raft.prs.votes.get? 2=some true ∧
    H.rn.raft.state≠.stateLeader := by
  obtain ⟨c,H,he,hH,hv⟩ : ∃ c H,
      five.run (filtered Oracle.livenessTest fiveFounding.cfg.voters) fourStands=some c ∧
      c.hosts.get? 4=some H ∧ H.rn.raft.prs.votes.get? 2=some true := by
    refine ⟨_,((five.run (filtered Oracle.livenessTest fiveFounding.cfg.voters) fourStands).getD
      five).hosts.get? 4 |>.get (by decide +kernel),run_isSome (by decide +kernel),
      (Option.some_get _).symm,by decide +kernel⟩
  exact ⟨c,H,he,hH,hv,run_minority five_founded he
    livenessTest_four hH⟩

end

end Cluster

end RaftTesting
