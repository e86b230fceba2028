import RaftTesting.Cluster.Safety

namespace RaftTesting

namespace Cluster

section

variable [Raftpb] {B : Consensus.Base Entry} {V : JointConfig}

/-- Honest acknowledgements: the leader of the term in which a host has acknowledged an index
has that index in its log, however old the acknowledgement is. -/
theorem acks_within (hne : V.NonEmpty) {c0 c : Cluster} (h0 : c0.Init B V)
    {events : List (Nat × Event)} (h1 : c0.play V events=some c) {m : Message} (hm : m ∈ c.net)
    (ht : m.type=.msgAppResp) (hrej : m.reject=false) {i : Nat} {I : Host}
    (hI : c.hosts.get? i=some I) (hl : I.rn.raft.state=.stateLeader)
    (hterm : m.term=I.rn.raft.term) : m.index≤I.rn.raft.raftLog.lastIndex := by
  obtain ⟨h,_,hi⟩ := play_inv hne h0.inv h1
  have hc := (hi.hosts i I hI).core
  have hok := (hi.net m hm).1
  unfold Message.Ok at hok
  rw [ht] at hok
  have hack : m.index≤h.ack m.term m.fromId := hok hrej
  have hlog : I.rn.raft.raftLog.all=h.llog I.rn.raft.term := (hc.leader hl).2
  have hlast : I.rn.raft.raftLog.lastIndex=I.rn.raft.raftLog.all.length := hc.log.lastIndex_eq
  rw [hlast,hlog,← hterm]
  exact hack.trans (hi.hist.ackLen _ _)

end

section

local instance acksWire : Raftpb := Wire.small

/-- The append of one entry of term 2 behind index i. -/
def appendAfter (i : Nat) : Message where
  type := .msgApp
  toId := 2
  fromId := 1
  term := 2
  logTerm := 2
  index := i
  entries := [{ (default : Entry) with term := 2, index := i+1 }]
  commit := 4

/-- Node 1 proposes two entries. The append of the second one overtakes that of the first, so
node 2 rejects it. Then node 2 acknowledges the first one, node 1 is told that node 2 is
unreachable, and only now the rejection arrives. -/
def rejectLate : List (Nat × Event) :=
  [(1,.call (.propose [default])),(1,.call (.propose [default])),(1,.ready),
    (2,.recv (appendAfter 5)),(2,.ready),(2,.save),(2,.apply),(2,.advance),
    (2,.recv (appendAfter 4)),(2,.ready),
    (1,.recv { type := .msgAppResp, toId := 1, fromId := 2, term := 2, index := 5 }),
    (1,.call (.reportUnreachable 2)),
    (1,.recv {
      type := .msgAppResp
      toId := 1
      fromId := 2
      term := 2
      index := 5
      reject := true
      rejectHint := 4
      logTerm := 2 })]

def late : Cluster := (committedFirst.play threeVoters rejectLate).getD committedFirst

theorem late_eq : committedFirst.play threeVoters rejectLate=some late :=
  (Option.getD_of_ne_none (Option.isSome_iff_ne_none.mp (by decide +kernel)) _).symm

def lateLeader : Host := (late.hosts.get? 1).get (by decide +kernel)

/-- The leader probes at an index that node 2 has acknowledged, and sends it entry 5 again. -/
theorem late_behind : three.play threeVoters (electFirst++commitFirst++rejectLate)=some late ∧
    late.hosts.get? 1=some lateLeader ∧ lateLeader.rn.raft.state=.stateLeader ∧
    (∃ pr, lateLeader.rn.raft.prs.progress.get? 2=some pr ∧ pr.matchIndex=5 ∧ pr.next=5) ∧
    ∃ m ∈ lateLeader.rn.raft.msgs, m.type=.msgApp ∧ m.toId=2 ∧
      m.entries.map Entry.index=[5,6] := by
  refine ⟨(play_append both_eq).trans late_eq,(Option.some_get _).symm,by decide +kernel,?_,
    by decide +kernel⟩
  exact ⟨(lateLeader.rn.raft.prs.progress.get? 2).get (by decide +kernel),
    (Option.some_get _).symm,by decide +kernel,by decide +kernel⟩

end

end Cluster

end RaftTesting
