import RaftTesting.Cluster.Network
import RaftTesting.Consensus.Machine
import RaftTesting.Log.Whole
import RaftTesting.Node.Start
import RaftTesting.Protocol.Wire

namespace RaftTesting

open Consensus

/-- How a host starts: a follower with the common log, in some term that is not below
the terms of the log, and with nothing on its way. -/
structure Host.Fresh (B : Base Entry) (V : JointConfig) (i : Nat) (H : Host) : Prop where
  id : H.rn.raft.id=i
  pos : i≠noNode
  state : H.rn.raft.state=.stateFollower
  term : B.term≤H.rn.raft.term
  whole : H.rn.raft.raftLog.Whole
  log : H.rn.raft.raftLog.all=B.log
  stored : H.rn.raft.raftLog.storage.stored<+:B.log
  committed : H.rn.raft.raftLog.committed≤B.log.length
  voters : H.rn.raft.prs.config.voters=V
  msgs : H.rn.raft.msgs=[]
  pending : H.pending=none
  toApply : H.toApply=[]

structure Cluster.Init (B : Base Entry) (V : JointConfig) (c : Cluster) : Prop where
  hosts : ∀ i H, c.hosts.get? i=some H → H.Fresh B V i
  net : c.net=[]

namespace RawNode

theorem bootstrapEntries_termAt (marshal : ConfChange → Bytes) (peers : List Peer) (k : Nat)
    (h0 : 0<k) (hk : k≤(bootstrapEntries marshal peers).length) :
    termAt (bootstrapEntries marshal peers) k=1 := by
  obtain ⟨j,rfl⟩ : ∃ j, k=j+1 := ⟨k-1,by omega⟩
  simp only [termAt,List.getElem?_eq_getElem hk]
  simp only [bootstrapEntries,List.getElem_mapIdx]
  rfl

theorem bootstrapEntries_bound (marshal : ConfChange → Bytes) (peers : List Peer) (k : Nat) :
    termAt (bootstrapEntries marshal peers) k≤1 := by
  rcases Nat.eq_zero_or_pos k with rfl | h0
  · exact Nat.zero_le _
  by_cases hk : k≤(bootstrapEntries marshal peers).length
  · exact (bootstrapEntries_termAt marshal peers k h0 hk).le
  · rw [termAt_past (by omega)]
    exact Nat.zero_le _

theorem bootstrapEntries_pos (marshal : ConfChange → Bytes) (peers : List Peer) (k : Nat)
    (h0 : 0<k) (hk : k≤(bootstrapEntries marshal peers).length) :
    1≤termAt (bootstrapEntries marshal peers) k :=
  (bootstrapEntries_termAt marshal peers k h0 hk).ge

theorem bootstrapEntries_sorted (marshal : ConfChange → Bytes) (peers : List Peer) (j k : Nat)
    (hjk : j≤k) (hk : k≤(bootstrapEntries marshal peers).length) :
    termAt (bootstrapEntries marshal peers) j≤termAt (bootstrapEntries marshal peers) k := by
  rcases Nat.eq_zero_or_pos j with rfl | h0
  · exact Nat.zero_le _
  · rw [bootstrapEntries_termAt marshal peers j h0 (hjk.trans hk),
      bootstrapEntries_termAt marshal peers k (h0.trans_le hjk) hk]

/-- The log that Bootstrap leaves behind, all of it in term 1. -/
def bootstrapBase (marshal : ConfChange → Bytes) (peers : List Peer) : Base Entry where
  log := bootstrapEntries marshal peers
  term := 1
  bound := bootstrapEntries_bound marshal peers
  pos := bootstrapEntries_pos marshal peers
  sorted := bootstrapEntries_sorted marshal peers

variable [Raftpb]

/-- StartNode on an empty storage starts a host with the log of Bootstrap. -/
theorem bootstrap_fresh {c : Config} {draws : List Nat} {marshal : ConfChange → Bytes}
    {peers : List Peer} {rn rn' : RawNode} (hw : c.storage.Whole)
    (hn : newRawNode c draws=.ok rn) (hb : rn.bootstrap marshal peers=.ok (.ok rn')) :
    Host.Fresh (bootstrapBase marshal peers) rn'.raft.prs.config.voters c.id { rn := rn' } := by
  obtain ⟨r,hr,hn⟩ := bind_eq_ok.mp hn
  cases hn
  obtain ⟨hpos,hid,hstate,hmsgs,hst,hun,-⟩ := Raft.newRaft_spec hr
  obtain ⟨-,hlast,l,t,b,hl,rfl⟩ := bootstrap_spec hb
  change r.raftLog.storage.lastIndex=0 at hlast
  have hlog : r.raftLog.Whole ∧ r.raftLog.all=[] ∧ r.raftLog.storage.stored=[] := by
    have hnew := RaftLog.newLogWithSize_whole hw 0
    have hs : r.raftLog.storage=(RaftLog.newLogWithSize c.storage 0).storage := hst
    have hu : r.raftLog.unstable=(RaftLog.newLogWithSize c.storage 0).unstable := hun
    have hnil : c.storage.stored=[] := by
      rw [← List.length_eq_zero_iff,← hw.lastIndex_eq,← hst]
      exact hlast
    refine ⟨hnew.1.congr hs hu,?_,hst ▸ hnil⟩
    rw [RaftLog.all_congr hs hu,hnew.2,hnil]
  obtain ⟨hwhole,hall,hstored⟩ := hlog
  obtain ⟨hwl,hall',_,_⟩ := RaftLog.Whole.append hwhole hl (bootstrapEntries_numbered marshal peers)
    (Nat.zero_le _) (fun _ => by rw [hall]; rfl)
  rw [List.take_zero,List.nil_append] at hall'
  have hsl : l.storage=r.raftLog.storage := by rw [RaftLog.append_spec hl]
  exact {
    id := hid
    pos := hpos
    state := rfl
    term := le_rfl
    whole := hwl.congr rfl rfl
    log := hall'
    stored := by
      change l.storage.stored<+:_
      rw [hsl,hstored]
      exact List.nil_prefix
    committed := le_rfl
    voters := rfl
    msgs := hmsgs
    pending := rfl
    toApply := rfl }

end RawNode

theorem MemoryStorage.newMemoryStorage_whole : newMemoryStorage.Whole :=
  ⟨rfl,rfl,rfl,.nil 0⟩

namespace Cluster

section

variable [Raftpb]

/-- StartNode; none when it panics. -/
def startHost (marshal : ConfChange → Bytes) (peers : List Peer) (c : Config)
    (draws : List Nat) : Option Host :=
  match RawNode.newRawNode c draws with
  | .error _ => none
  | .ok rn =>
    match rn.bootstrap marshal peers with
    | .ok (.ok rn) => some { rn := rn }
    | _ => none

def startPeer (marshal : ConfChange → Bytes) (peers : List Peer) (c : Nat → Config)
    (draws : Nat → List Nat) (hosts : SortedMap Host) (p : Peer) : SortedMap Host :=
  match startHost marshal peers (c p.id) (draws p.id) with
  | some h => hosts.insert p.id h
  | none => hosts

/-- Every peer starts its node with the same list of peers. -/
def start (marshal : ConfChange → Bytes) (peers : List Peer) (c : Nat → Config)
    (draws : Nat → List Nat) : Cluster where
  hosts := peers.foldl (startPeer marshal peers c draws) ∅

variable {marshal : ConfChange → Bytes} {peers : List Peer} {c : Nat → Config}
  {draws : Nat → List Nat} {V : JointConfig}

theorem startHost_fresh {c : Config} {draws : List Nat} {H : Host} (hw : c.storage.Whole)
    (h : startHost marshal peers c draws=some H) :
    H.Fresh (RawNode.bootstrapBase marshal peers) H.rn.raft.prs.config.voters c.id := by
  unfold startHost at h
  split at h
  · cases h
  · rename_i rn hn
    split at h
    · rename_i rn' hb
      cases h
      exact RawNode.bootstrap_fresh hw hn hb
    · cases h

theorem startPeers_spec {ps : List Peer} {hosts : SortedMap Host}
    (h : ∀ i H, hosts.get? i=some H → startHost marshal peers (c i) (draws i)=some H)
    (i : Nat) (H : Host) (hi : (ps.foldl (startPeer marshal peers c draws) hosts).get? i=some H) :
    startHost marshal peers (c i) (draws i)=some H := by
  induction ps generalizing hosts with
  | nil => exact h i H hi
  | cons p ps ih =>
    refine ih ?_ hi
    intro j J hj
    unfold startPeer at hj
    split at hj
    · rename_i h' hp
      rw [SortedMap.get?_insert] at hj
      split_ifs at hj with hpj
      · cases hj
        exact hpj ▸ hp
      · exact h j J hj
    · exact h j J hj

/-- A started cluster is ready to run once all its hosts agree on the voters. -/
theorem start_init (hid : ∀ i, (c i).id=i) (hw : ∀ i, (c i).storage.Whole)
    (hf : (start marshal peers c draws).fixed V=true) :
    (start marshal peers c draws).Init (RawNode.bootstrapBase marshal peers) V := by
  refine ⟨fun i H hH => ?_,rfl⟩
  have hstart : startHost marshal peers (c i) (draws i)=some H :=
    startPeers_spec (fun i H h => by cases h) i H hH
  have hfresh := startHost_fresh (hw i) hstart
  rw [hid i,voters_of_fixed hf hH] at hfresh
  exact hfresh

end

section

local instance : Raftpb := Wire.small

def threePeers : List Peer := [⟨1,[]⟩,⟨2,[]⟩,⟨3,[]⟩]

def threeVoters : JointConfig := ⟨some (IdSet.ofList [1,2,3]),none⟩

theorem threeVoters_nonEmpty : threeVoters.NonEmpty := ⟨1,by decide⟩

/-- The parameters that the nodes of the repository are started with. -/
def nodeConfig (i : Nat) : Config where
  id := i
  electionTick := 10
  heartbeatTick := 1
  storage := .newMemoryStorage
  maxSizePerMsg := 1024*1024
  maxInflightMsgs := 256
  maxUncommittedEntriesSize := 2^30

def three : Cluster := start Wire.marshalConfChange threePeers nodeConfig (fun _ => [])

theorem three_init : three.Init (RawNode.bootstrapBase Wire.marshalConfChange threePeers)
    threeVoters :=
  start_init (fun _ => rfl) (fun _ => MemoryStorage.newMemoryStorage_whole) (by decide +kernel)

/-- Node 1 applies the bootstrap entries, stands in term 2 and is elected by node 2. -/
def electFirst : List (Nat × Event) :=
  [(1,.ready),(1,.save),(1,.apply),(1,.apply),(1,.apply),(1,.advance),(1,.call .campaign),
    (1,.ready),(1,.save),(1,.advance),
    (2,.recv { type := .msgVote, toId := 2, fromId := 1, term := 2, index := 3, logTerm := 1 }),
    (2,.ready),(2,.save),
    (1,.recv { type := .msgVoteResp, toId := 1, fromId := 2, term := 2 }),(1,.ready),(1,.save)]

/-- Node 2 stores the first entry of term 2, and node 1 commits it. -/
def commitFirst : List (Nat × Event) :=
  let first : Message := {
    type := .msgApp
    toId := 2
    fromId := 1
    term := 2
    logTerm := 1
    index := 3
    entries := [{ (default : Entry) with term := 2, index := 4 }]
    commit := 3 }
  [(2,.apply),(2,.apply),(2,.apply),(2,.advance),(1,.advance),(2,.recv first),
    (2,.ready),(2,.save),(2,.advance),
    (1,.recv { type := .msgAppResp, toId := 1, fromId := 2, term := 2, index := 4 }),
    (1,.ready),(1,.save),(1,.apply),(1,.advance),
    (2,.recv { first with logTerm := 2, index := 4, entries := [], commit := 4 })]

def elected : Cluster := (three.play threeVoters electFirst).getD three

def committedFirst : Cluster := (elected.play threeVoters commitFirst).getD elected

theorem elected_eq : three.play threeVoters electFirst=some elected :=
  (Option.getD_of_ne_none (Option.isSome_iff_ne_none.mp (by decide +kernel)) _).symm

theorem committedFirst_eq : elected.play threeVoters commitFirst=some committedFirst :=
  (Option.getD_of_ne_none (Option.isSome_iff_ne_none.mp (by decide +kernel)) _).symm

theorem both_eq : three.play threeVoters (electFirst++commitFirst)=some committedFirst :=
  (play_append elected_eq).trans committedFirst_eq

/-- Node 1 of the elected cluster. -/
def firstLeader : Host := (elected.hosts.get? 1).get (by decide +kernel)

/-- Nodes 1 and 2 once the first entry is committed. -/
def leaderAfter : Host := (committedFirst.hosts.get? 1).get (by decide +kernel)

def followerAfter : Host := (committedFirst.hosts.get? 2).get (by decide +kernel)

theorem firstLeader_eq : elected.hosts.get? 1=some firstLeader := (Option.some_get _).symm

theorem leaderAfter_eq : committedFirst.hosts.get? 1=some leaderAfter := (Option.some_get _).symm

theorem followerAfter_eq : committedFirst.hosts.get? 2=some followerAfter :=
  (Option.some_get _).symm

end

end Cluster

end RaftTesting
