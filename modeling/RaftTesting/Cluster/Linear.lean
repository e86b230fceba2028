import RaftTesting.Cluster.Start
import RaftTesting.Cluster.Serving

namespace RaftTesting

open Consensus

/-- How a host of a cluster with these foundations starts: it has applied a first part of the
common log, with the configuration that this leads to, and nobody has asked it for a read. -/
structure Host.Founded [Raftpb] (F : Founding) (B : Base Entry) (i : Nat) (H : Host) : Prop where
  fresh : H.Fresh B H.rn.raft.prs.config.voters i
  formed : H.rn.raft.core.Formed
  applied : H.rn.raft.raftLog.applied≤H.rn.raft.raftLog.committed
  path : F.succession.Path (F.succession.confs (B.log.take H.rn.raft.raftLog.applied))
    H.rn.raft.prs.config
  trim : F.succession.Trim H.rn.raft.raftLog.committed B.log
  readOnly : H.rn.raft.readOnly=.newReadOnly .readOnlySafe
  readStates : H.rn.raft.readStates=[]
  postponed : H.rn.raft.pendingReadIndexMessages=[]

structure Cluster.Founded [Raftpb] (F : Founding) (B : Base Entry) (c : Cluster) : Prop where
  hosts : ∀ i H, c.hosts.get? i=some H → H.Founded F B i
  net : c.net=[]

section

variable [Raftpb] {F : Founding} {B : Base Entry}

theorem Host.Founded.placed {i : Nat} {H : Host} (hf : H.Founded F B i) :
    HostPlaced F B (Hist.init B) i H.rn.raft.raftLog.applied H := by
  have hall : H.rn.raft.core.raftLog.all=B.log := hf.fresh.log
  have hstate : ∀ {s : StateType}, s≠.stateFollower → H.rn.raft.core.state≠s :=
    fun hs he => hs (he.symm.trans hf.fresh.state)
  refine ⟨hf.fresh.hosted,⟨le_rfl,hf.applied,?_,hf.formed,?_,?_,?_⟩,?_,?_,?_,?_,?_⟩
  · rw [hall]
    exact hf.path
  · rw [hall]
    exact hf.trim
  · rintro (hs | hs)
    · exact absurd hs (hstate (by decide))
    · exact absurd hs (hstate (by decide))
  · exact fun hs => absurd hs (hstate (by decide))
  · intro m hm
    rw [hf.fresh.msgs] at hm
    cases hm
  · rw [hf.fresh.toApply]
    exact (List.drop_eq_nil_of_le (List.length_take_le _ _)).symm
  · rw [hf.fresh.toApply]
    exact hf.applied
  · exact fun _ => ⟨rfl,hf.fresh.toApply⟩
  · intro rd hrd
    cases hf.fresh.pending.symm.trans hrd

namespace Cluster

variable {c : Cluster}

theorem Founded.realm (hf : c.Founded F B) : Realm F B (Hist.init B) c where
  hist := .init B
  governed := Hist.governed_init F.succession B
  hosts := fun i H hH => ⟨_,(hf.hosts i H hH).placed⟩
  sole := by
    intro i H hH
    refine Raft.sole_of_not (fun hl => ?_)
    cases (hf.hosts i H hH).fresh.state.symm.trans hl
  net := by
    intro m hm
    rw [hf.net] at hm
    cases hm

theorem Founded.before (hf : c.Founded F B) (ctx : Bytes) : c.Before ctx (Hist.init B) where
  hosts := by
    intro i H hH
    have hH := hf.hosts i H hH
    refine ⟨⟨fun rs hrs => ?_,fun m hm => ?_,?_,?_⟩,fun m hm => ?_⟩
    · change rs ∈ H.rn.raft.readStates at hrs
      rw [hH.readStates] at hrs
      cases hrs
    · change m ∈ H.rn.raft.msgs at hm
      rw [hH.fresh.msgs] at hm
      cases hm
    · change H.rn.raft.readOnly.option=_
      rw [hH.readOnly]
      rfl
    · change H.rn.raft.readOnly.Waits _ _ _ _
      rw [hH.readOnly]
      exact ReadOnly.waits_new _
    · change m ∈ H.rn.raft.pendingReadIndexMessages at hm
      rw [hH.postponed] at hm
      cases hm
  net := by
    intro m hm
    rw [hf.net] at hm
    cases hm

/-- The hosts agree on the configuration, have all committed and nothing applied, and nobody
has asked them for a read. -/
def uniform (c : Cluster) (cfg : TrackerConfig) : Bool :=
  c.hosts.pairs.all (fun p =>
    let r := p.2.rn.raft
    r.prs.config=cfg && r.raftLog.applied=0 && r.raftLog.committed=r.raftLog.lastIndex &&
      r.readOnly=.newReadOnly .readOnlySafe && r.readStates=[] && r.pendingReadIndexMessages=[])

theorem startHost_formed {marshal : ConfChange → Bytes} {peers : List Peer} {c : Config}
    {draws : List Nat} {H : Host} (h : startHost marshal peers c draws=some H) :
    H.rn.raft.core.Formed := by
  unfold startHost at h
  split at h
  · cases h
  · rename_i rn hn
    obtain ⟨r,hr,hn⟩ := bind_eq_ok.mp hn
    cases hn
    split at h
    · rename_i rn' hb
      cases h
      exact RawNode.bootstrap_formed (Raft.newRaft_formed hr) hb
    · cases h

/-- A cluster that StartNode has started is founded on the configuration that its hosts agree
on. -/
theorem start_founded {marshal : ConfChange → Bytes} {peers : List Peer} {cfg : Nat → Config}
    {draws : Nat → List Nat} (hid : ∀ i, (cfg i).id=i) (hw : ∀ i, (cfg i).storage.Whole)
    (hu : (start marshal peers cfg draws).uniform F.cfg=true) :
    (start marshal peers cfg draws).Founded F (RawNode.bootstrapBase marshal peers) := by
  refine ⟨fun i H hH => ?_,rfl⟩
  have hstart : startHost marshal peers (cfg i) (draws i)=some H :=
    startPeers_spec (fun i H h => by cases h) i H hH
  have hfresh := startHost_fresh (hw i) hstart
  rw [hid i] at hfresh
  have hall := List.all_eq_true.mp hu (i,H) (SortedMap.mem_pairs hH)
  simp only [Bool.and_eq_true,decide_eq_true_eq] at hall
  obtain ⟨⟨⟨⟨⟨hcfg,happ⟩,hcm⟩,hro⟩,hrs⟩,hpost⟩ := hall
  have hlast : H.rn.raft.raftLog.lastIndex=(RawNode.bootstrapBase marshal peers).log.length := by
    rw [hfresh.whole.lastIndex_eq,hfresh.log]
  refine ⟨hfresh,startHost_formed hstart,by omega,?_,?_,hro,hrs,hpost⟩
  · rw [happ,hcfg]
    exact .start
  · unfold Succession.Trim
    rw [hcm,hlast,List.drop_length]
    exact Nat.zero_le _

/-- Whatever a cluster does until some moment before which a read request is not issued, and
then with care: whoever has a read state for the request has one with an index that is not
behind what any of the hosts had committed at that moment. -/
theorem reads_linear {ctx : Bytes} {before after : List (Nat × Event)} {c1 c2 : Cluster}
    (hf : c.Founded F B) (h1 : c.run (unissued ctx) before=some c1)
    (h2 : c1.run careful after=some c2) {i j : Nat} {H J : Host} (hH : c1.hosts.get? i=some H)
    (hJ : c2.hosts.get? j=some J) {rs : ReadState} (hrs : rs ∈ J.rn.raft.readStates)
    (hctx : rs.requestCtx=ctx) : H.rn.raft.raftLog.committed≤rs.index := by
  obtain ⟨h,hr,hb⟩ := run_before hf.realm (hf.before ctx) h1
  obtain ⟨a,hp⟩ := hr.hosts i H hH
  obtain ⟨T,-,hT,-⟩ := hp.hosted.core.node.commit
  obtain ⟨h',hs⟩ := run_serving hr (hb.sound hr hT) (hb.serving T H) h2
  exact (hs.hosts j J hJ).told rs hrs hctx

end Cluster

end

namespace Cluster

section

local instance linearWire : Raftpb := Wire.small

def votersOnly (ids : List Nat) : TrackerConfig where
  voters := ⟨some (IdSet.ofList ids),none⟩
  autoLeave := false
  learners := none
  learnersNext := none

def bootBase (peers : List Peer) : Base Entry := RawNode.bootstrapBase Wire.marshalConfChange peers

theorem started_founded (peers : List Peer) {F : Founding}
    (hu : (start Wire.marshalConfChange peers nodeConfig (fun _ => [])).uniform F.cfg=true) :
    (start Wire.marshalConfChange peers nodeConfig (fun _ => [])).Founded F (bootBase peers) :=
  start_founded (fun _ => rfl) (fun _ => MemoryStorage.newMemoryStorage_whole) hu

def threeFounding : Founding := ⟨votersOnly [1,2,3],by decide⟩

theorem run_isSome {allowed : Cluster → Nat → Event → Bool} {c : Cluster}
    {es : List (Nat × Event)} (h : (c.run allowed es).isSome=true) :
    c.run allowed es=some ((c.run allowed es).getD c) :=
  (Option.getD_of_ne_none (Option.isSome_iff_ne_none.mp h) _).symm

def beat (i commit : Nat) (ctx : Bytes) : Message :=
  { type := .msgHeartbeat, toId := i, fromId := 1, term := 2, commit := commit, context := ctx }

def beatResp (i : Nat) (ctx : Bytes) : Message :=
  { type := .msgHeartbeatResp, toId := 1, fromId := i, term := 2, context := ctx }

/-- Node 1 is asked for a read, and node 2 acknowledges the heartbeat that goes with it. -/
def askFirst : List (Nat × Event) :=
  [(1,.call (.readIndex [7])),(1,.ready),(2,.recv (beat 2 4 [7])),(2,.ready),
    (1,.recv (beatResp 2 [7]))]

def unasked : Cluster := (three.run (unissued [7]) (electFirst++commitFirst)).getD three

def answered : Cluster := (unasked.run careful askFirst).getD unasked

theorem unasked_eq : three.run (unissued [7]) (electFirst++commitFirst)=some unasked :=
  run_isSome (by decide +kernel)

theorem answered_eq : unasked.run careful askFirst=some answered := run_isSome (by decide +kernel)

def followerUnasked : Host := (unasked.hosts.get? 2).get (by decide +kernel)

def leaderAnswered : Host := (answered.hosts.get? 1).get (by decide +kernel)

theorem reads_linear_three : leaderAnswered.rn.raft.readStates=[⟨4,[7]⟩] ∧
    followerUnasked.rn.raft.raftLog.committed=4 ∧
    followerUnasked.rn.raft.raftLog.committed≤4 := by
  have hrs : leaderAnswered.rn.raft.readStates=[⟨4,[7]⟩] := by decide +kernel
  have hfounded : three.Founded threeFounding (bootBase threePeers) :=
    started_founded threePeers (by decide +kernel)
  have hH : unasked.hosts.get? 2=some followerUnasked := (Option.some_get _).symm
  have hJ : answered.hosts.get? 1=some leaderAnswered := (Option.some_get _).symm
  have hmem : (⟨4,[7]⟩ : ReadState) ∈ leaderAnswered.rn.raft.readStates := by
    rw [hrs]
    exact List.mem_singleton.mpr rfl
  exact ⟨hrs,by decide +kernel,reads_linear hfounded unasked_eq answered_eq hH hJ hmem rfl⟩

def twoPeers : List Peer := [⟨1,[]⟩,⟨2,[]⟩]

def two : Cluster := start Wire.marshalConfChange twoPeers nodeConfig (fun _ => [])

def twoFounding : Founding := ⟨votersOnly [1,2],by decide⟩

def removeFirst : Entry :=
  { (default : Entry) with
    type := .entryConfChange
    data := Wire.marshalConfChange { type := .removeNode, nodeID := 1 } }

/-- The append messages of node 1 to node 2 in term 2. -/
def append (logTerm index : Nat) (entries : List Entry) (commit : Nat) : Message where
  type := .msgApp
  toId := 2
  fromId := 1
  term := 2
  logTerm := logTerm
  index := index
  entries := entries
  commit := commit

def appended (index : Nat) : Message :=
  { type := .msgAppResp, toId := 1, fromId := 2, term := 2, index := index }

/-- Node 1 is elected in term 2, proposes its own removal, commits and applies it. Node 2
applies it too, is elected by itself and commits the empty entry of term 3. -/
def removal : List (Nat × Event) :=
  [(1,.ready),(1,.save),(1,.apply),(1,.apply),(1,.advance),(1,.call .campaign),(1,.ready),
    (1,.save),(1,.advance),
    (2,.ready),(2,.save),(2,.apply),(2,.apply),(2,.advance),
    (2,.recv { type := .msgVote, toId := 2, fromId := 1, term := 2, index := 2, logTerm := 1 }),
    (2,.ready),(2,.save),(2,.advance),
    (1,.recv { type := .msgVoteResp, toId := 1, fromId := 2, term := 2 }),(1,.ready),(1,.save),
    (1,.advance),(1,.call (.propose [removeFirst])),
    (2,.recv (append 1 2 [{ (default : Entry) with term := 2, index := 3 }] 2)),(2,.ready),
    (2,.save),(2,.advance),
    (1,.recv (appended 3)),(1,.ready),(1,.save),(1,.apply),(1,.advance),
    (2,.recv (append 2 3 [{ removeFirst with term := 2, index := 4 }] 3)),(2,.ready),(2,.save),
    (2,.apply),(2,.advance),
    (1,.recv (appended 4)),(1,.ready),(1,.save),(1,.apply),
    (2,.recv (append 2 4 [] 4)),(2,.ready),(2,.save),(2,.apply),(2,.advance),
    (2,.call .campaign)]

def removed : Cluster := (two.run (unissued [7]) removal).getD two

def removedAsked : Cluster :=
  (removed.run (fun _ _ _ => true) [(1,.call (.readIndex [7]))]).getD removed

def secondAlone : Host := (removed.hosts.get? 2).get (by decide +kernel)

def firstAsked : Host := (removedAsked.hosts.get? 1).get (by decide +kernel)

def askSecond : Message where
  type := .msgReadIndex
  toId := 1
  fromId := 2
  entries := [{ (default : Entry) with data := [1] }]

/-- Node 1 answers a read request that node 2 has forwarded. Nodes 2 and 3 have acknowledged
it, and then go on to term 3 without node 1. -/
def depose : List (Nat × Event) :=
  [(3,.recv { append 1 3 [{ (default : Entry) with term := 2, index := 4 }] 3 with toId := 3 }),
    (2,.call (.readIndex [1])),(2,.ready),(2,.save),(2,.apply),(2,.advance),
    (1,.recv askSecond),(1,.ready),
    (3,.recv (beat 3 0 [1])),(3,.ready),(3,.save),(3,.apply),(3,.apply),(3,.apply),(3,.advance),
    (2,.recv (beat 2 4 [1])),(2,.ready),(2,.save),(2,.advance),
    (1,.recv (beatResp 2 [1])),
    (2,.call .campaign),(2,.ready),(2,.save),(2,.advance),
    (3,.recv { type := .msgVote, toId := 3, fromId := 2, term := 3, index := 4, logTerm := 2 }),
    (3,.ready),(3,.save),(3,.advance),
    (2,.recv { type := .msgVoteResp, toId := 2, fromId := 3, term := 3 }),(2,.ready),(2,.save),
    (2,.advance),
    (3,.recv { append 2 4 [{ (default : Entry) with term := 3, index := 5 }] 4 with
      toId := 3, fromId := 2, term := 3 }),
    (3,.ready),(3,.save),
    (2,.recv { type := .msgAppResp, toId := 2, fromId := 3, term := 3, index := 5 })]

/-- The forwarded request comes once more, after the new one, and node 3's acknowledgement of it
comes late. -/
def replay : List (Nat × Event) :=
  [(1,.call (.readIndex [2])),(1,.recv askSecond),(1,.recv (beatResp 3 [1]))]

def deposed : Cluster := (three.run (unissued [2]) (electFirst++commitFirst++depose)).getD three

def replayed : Cluster := (deposed.run (fun _ _ _ => true) replay).getD deposed

def secondDeposing : Host := (deposed.hosts.get? 2).get (by decide +kernel)

def firstReplayed : Host := (replayed.hosts.get? 1).get (by decide +kernel)

/-- Some host had committed more, when the read was asked for, than the read is told later. -/
def Stale (c : Cluster) (ctx : Bytes) (before after : List (Nat × Event)) : Prop :=
  ∃ c1 c2 i j H J, c.run (unissued ctx) before=some c1 ∧
    c1.run (fun _ _ _ => true) after=some c2 ∧
    c1.hosts.get? i=some H ∧ c2.hosts.get? j=some J ∧
    ∃ rs ∈ J.rn.raft.readStates, rs.requestCtx=ctx ∧ rs.index<H.rn.raft.raftLog.committed

/-- In the first run the removed leader is not the one voter that is left, yet isSingleton makes
it answer at once. The second run has no change of the configuration: an acknowledgement of a
request that was answered before releases what was queued ahead of its duplicate. -/
theorem stale_reads : (two.Founded twoFounding (bootBase twoPeers) ∧
      two.Stale [7] removal [(1,.call (.readIndex [7]))]) ∧
    (three.Founded threeFounding (bootBase threePeers) ∧
      three.Stale [2] (electFirst++commitFirst++depose) replay) := by
  refine ⟨⟨started_founded twoPeers (by decide +kernel),removed,removedAsked,2,1,secondAlone,
    firstAsked,?_⟩,started_founded threePeers (by decide +kernel),deposed,replayed,2,1,
    secondDeposing,firstReplayed,?_⟩
  · exact ⟨run_isSome (by decide +kernel),run_isSome (by decide +kernel),(Option.some_get _).symm,
      (Option.some_get _).symm,⟨4,[7]⟩,by decide +kernel,rfl,by decide +kernel⟩
  · exact ⟨run_isSome (by decide +kernel),run_isSome (by decide +kernel),(Option.some_get _).symm,
      (Option.some_get _).symm,⟨4,[2]⟩,by decide +kernel,rfl,by decide +kernel⟩

end

end Cluster

end RaftTesting
