import RaftTesting.Cluster.Network
import RaftTesting.Cluster.Simulation
import RaftTesting.Transition.Faults

namespace RaftTesting

open Consensus

/-- A host's core under the fixed voters V, with the history it shares with the others. -/
structure Good (B : Base Entry) (V : JointConfig) (h : Hist Entry) (i : Nat) (c : Core) : Prop where
  hist : HistInv B h
  quorate : h.Quorate B V.QuorumOf
  core : CoreInv B h i c
  voters : c.prs.config.voters=V

/-- What a step of host i keeps. -/
structure Passed (B : Base Entry) (V : JointConfig) (i : Nat) (h : Hist Entry) (c : Core)
    (h' : Hist Entry) (c' : Core) : Prop extends Shift i h c h' c' where
  good : Good B V h' i c'

theorem Given.mono {i j : Nat} {h h' : Hist Entry} (g : h.Grown j h') {m : Message}
    (hm : Given h i m) : Given h' i m := ⟨hm.1.mono g,hm.2⟩

theorem Given.not_snap {i : Nat} {h : Hist Entry} {m : Message} (hm : Given h i m) :
    m.type≠.msgSnap := by
  intro ht
  have hok := hm.1
  unfold Message.Ok at hok
  rw [ht] at hok
  exact hok

section

variable {B : Base Entry} {V : JointConfig} {i : Nat} {h h' h'' : Hist Entry} {c c' c'' : Core}

theorem Passed.refl (hg : Good B V h i c) : Passed B V i h c h c := ⟨.refl i h c,hg⟩

theorem Passed.trans (p : Passed B V i h c h' c') (p' : Passed B V i h' c' h'' c'') :
    Passed B V i h c h'' c'' := ⟨p.toShift.trans p'.toShift,p'.good⟩

theorem Sim.passed (hg : Good B V h i c) (s : Sim B V.QuorumOf i h c h' c')
    (hv : c'.prs.config.voters=V) : Passed B V i h c h' c' := by
  obtain ⟨g,hh,hc⟩ := s.inv hg.hist hg.core
  refine ⟨s.shift g,hh,?_,hc,hv⟩
  rcases s.act with ⟨rfl,_⟩ | ha
  · exact hg.quorate
  · exact ha.quorate hg.quorate

/-- Two quorums of the same voters meet. -/
theorem quorums_meet (hne : V.NonEmpty) (S T : Nat → Prop) (hS : V.QuorumOf S)
    (hT : V.QuorumOf T) : ∃ v, S v ∧ T v := by
  obtain ⟨v,_,hv⟩ := hS.overlap hne hT
  exact ⟨v,hv⟩

/-- A candidate has won when a quorum has granted it their votes. -/
theorem ProgressTracker.granted_quorum {c : Core} (ht : c.prs.tallyVotes=.voteWon) :
    c.prs.config.voters.QuorumOf c.granted := by
  unfold ProgressTracker.tallyVotes at ht
  rw [JointConfig.voteResult_won] at ht
  exact ht

theorem Good.electOk (hne : V.NonEmpty) (hg : Good B V h i c) : ElectOk V.QuorumOf h c := by
  intro hs ht
  have hQ := ProgressTracker.granted_quorum ht
  rw [hg.voters] at hQ
  exact ⟨hQ,hg.core.node.wins_of_meet (quorums_meet hne) hg.quorate hg.hist
    (StateType.role_candidate.mpr hs) hQ (fun _ hv => hv)⟩

/-- The commit index that a leader computes is acknowledged by a quorum. -/
theorem ProgressTracker.committed_quorum {c : Core} (h0 : 0<c.prs.committed) :
    c.prs.config.voters.QuorumOf (fun v => c.prs.committed≤c.matched v) := by
  refine (c.prs.config.voters.committedIndex_quorum c.prs.ackedIndex c.prs.committed h0
    le_rfl).mono ?_
  rintro v ⟨k,hk,hle⟩
  have hmatch : c.matched v=k := by
    unfold Core.matched
    change (c.prs.ackedIndex v).getD 0=k
    rw [hk]
    rfl
  exact hmatch ▸ hle

theorem Good.decideOk (hne : V.NonEmpty) (hg : Good B V h i c) : DecideOk V.QuorumOf h c := by
  intro hs hlt ht
  have hQ := ProgressTracker.committed_quorum (c := c) (by omega)
  rw [hg.voters] at hQ
  exact ⟨hQ,fun T hT hl => hg.core.node.decides_of_meet (quorums_meet hne) hg.quorate hg.hist
    (StateType.role_leader.mpr hs) hlt ht hQ (fun _ hv => hv) hT hl⟩

variable [Raftpb] {S : Message → Prop}

/-- Only a snapshot replaces the configuration of a node. -/
theorem Core.Move.config_eq (hS : ∀ m, S m → m.type≠.msgSnap) (hm : Move S c c') :
    c'.prs.config=c.prs.config := by
  cases hm with
  | send hs => exact hs.frame.config
  | poll =>
    change (c.prs.recordVote _ _).config=_
    unfold ProgressTracker.recordVote
    split <;> rfl
  | restore _ hm ht => exact absurd ht (hS _ hm)
  | follow | preStand | stand | elect | append | pend | commit | ack | vote | accept | stale
  | beat | skip | forward => rfl

theorem Core.Move.passed (hne : V.NonEmpty) (hS : ∀ m, S m → Given h i m) (hg : Good B V h i c)
    (hm : Move S c c') : ∃ h', Passed B V i h c h' c' := by
  obtain ⟨h',s⟩ := hm.sim hS hg.hist hg.core (hg.electOk hne) (hg.decideOk hne)
  refine ⟨h',s.passed hg ?_⟩
  rw [hm.config_eq (fun m hm => (hS m hm).not_snap)]
  exact hg.voters

theorem Core.HostMove.passed (hne : V.NonEmpty) (hS : ∀ m, S m → Given h i m)
    (hg : Good B V h i c) (hm : HostMove S c c') : ∃ h', Passed B V i h c h' c' := by
  cases hm with
  | move hm => exact hm.passed hne hS hg
  | @applied l _ ha =>
    have hl : l.storage=c.raftLog.storage ∧ l.unstable=c.raftLog.unstable ∧
        l.committed=c.raftLog.committed := by
      rcases RaftLog.appliedTo_spec ha with ⟨-,rfl⟩ | ⟨-,-,-,rfl⟩ <;> exact ⟨rfl,rfl,rfl⟩
    have hall := RaftLog.all_congr hl.1 hl.2.1
    refine ⟨h,Sim.passed hg (.of_log hg.core (.inl ⟨rfl,?_⟩) rfl hl.1 hl.2.1 ?_
      (fun _ => .inl)) hg.voters⟩
    · exact Node.ext rfl rfl rfl hall hl.2.2 rfl rfl
    · intro hs j pr hget
      change pr.Sound l.all.length
      rw [hall]
      exact hg.core.tracks hs j pr hget
  | leave hs _ ha hget =>
    obtain ⟨h',s⟩ := hg.core.sim_append (Q := V.QuorumOf) hg.hist _ hs ha hget
    exact ⟨h',s.passed hg hg.voters⟩

theorem Core.HostMoves.passed (hne : V.NonEmpty) (hS : ∀ m, S m → Given h i m)
    (hg : Good B V h i c) (hm : HostMoves S c c') : ∃ h', Passed B V i h c h' c' := by
  induction hm with
  | refl => exact ⟨h,.refl hg⟩
  | tail _ hm ih =>
    obtain ⟨h1,p⟩ := ih
    obtain ⟨h2,p'⟩ := hm.passed hne (fun m hm => (hS m hm).mono p.grown) p.good
    exact ⟨h2,p.trans p'⟩

theorem Core.Moves.passed (hne : V.NonEmpty) (hS : ∀ m, S m → Given h i m)
    (hg : Good B V h i c) (hm : Moves S c c') : ∃ h', Passed B V i h c h' c' :=
  HostMoves.passed hne hS hg hm.host

omit [Raftpb] in
/-- What is committed here is in the sender's log, so no conflict can reach it. -/
theorem Good.accept_quiet (hg : Good B V h i c) {m : Message} (hm : m.Ok h)
    (htype : m.type=.msgApp) (hterm : m.term=c.term) :
    Quiet true (c.raftLog.maybeAppend m.index m.logTerm m.commit m.entries) := by
  unfold Message.Ok at hm
  rw [htype] at hm
  obtain ⟨hlead,hseg,hlt,_⟩ := hm
  rw [hterm] at hlead hseg hlt
  have hL := hg.hist.llog_inv hlead
  obtain ⟨res,hres⟩ := hg.core.log.maybeAppend_ok hg.core.node.log.coherent hL.coherent
    (fun k => hg.hist.termAt_pos hL) hseg (hg.core.node.commit_covers hg.hist hlead) m.commit
  rw [hlt,hres]
  exact avoids_ok res

omit [Raftpb] in
theorem Good.append_quiet (hg : Good B V h i c) (es : List Entry) :
    Quiet true (c.raftLog.append (Raft.stampEntries c.term c.raftLog.lastIndex es)) := by
  have hn := Raft.stampEntries_numbered c.term c.raftLog.lastIndex es
  cases he : Raft.stampEntries c.term c.raftLog.lastIndex es with
  | nil => exact avoids_ok _
  | cons e es' =>
    rw [he] at hn
    have hlast := hg.core.log.lastIndex_eq
    have hcm := hg.core.committed_le
    obtain ⟨l,hl⟩ := hg.core.log.append_ok hn.head hlast.le (hlast ▸ hcm)
    rw [hl]
    exact avoids_ok l

/-- A node in good order never runs into a panic of its log. -/
theorem Good.tame (hne : V.NonEmpty) (hg : Good B V h i c) : c.Tame true (Given h i) where
  accept := by
    intro c' m hmoves hm htype hterm
    obtain ⟨h',p⟩ := hmoves.passed hne (fun _ hm => hm) hg
    exact p.good.accept_quiet (hm.mono p.grown).1 htype hterm
  append := by
    intro c' es hmoves _
    obtain ⟨h',p⟩ := hmoves.passed hne (fun _ hm => hm) hg
    exact p.good.append_quiet es

end

end RaftTesting
