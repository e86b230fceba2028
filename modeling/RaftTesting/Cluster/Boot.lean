import RaftTesting.Cluster.Validity

namespace RaftTesting

open Consensus

theorem Role.makeVoter_incoming (r : Role) : r.makeVoter.incoming=true := by
  unfold makeVoter
  split <;> rfl

namespace Changer

/-- A single change leads to a configuration that is not left by itself, with the node in its
new role. -/
theorem change_single [Raftpb] {c : Changer} {t : Tracked} {cc : ConfChange}
    (h : c.change (Raftpb.asV2 cc)=.ok t) :
    t.cfg.autoLeave=false ∧ MajorityConfig.len t.cfg.voters.incoming≠0 ∧
      ∀ id, t.role id=Role.replay id [⟨cc.type,cc.nodeID⟩] (c.copied.role id) := by
  replace h : c.simple [⟨cc.type,cc.nodeID⟩]=.ok t := by
    have hleave : ¬Raftpb.leaveJoint (Raftpb.asV2 cc)=true := by
      simp [Raftpb.leaveJoint_iff,Raftpb.asV2_eq]
    have henter : Raftpb.enterJoint (Raftpb.asV2 cc)=none := by
      simp [Raftpb.enterJoint_eq,Raftpb.asV2_eq]
    unfold change at h
    rw [if_neg hleave,henter,Raftpb.asV2_eq] at h
    exact h
  have hne := (simple_adjacent h).2
  obtain ⟨t0,h0,h⟩ := bind_eq_ok.mp h
  cases checkAndCopy_eq h0
  split at h
  · cases h
  obtain ⟨t1,h1,h⟩ := bind_eq_ok.mp h
  split at h
  · cases h
  cases Tracked.checkAndReturn_eq h
  obtain ⟨happ,-⟩ := apply_eq_ok.mp h1
  exact ⟨(applyAll_changed happ).autoLeave,hne,applyAll_role happ⟩

end Changer

namespace Raft

variable [Raftpb] {r r' : Raft}

/-- A new node has the members of its storage, and no read on its way. -/
theorem newRaft_restored {c : Config} {draws : List Nat} (h : newRaft c draws=.ok r) :
    (∃ n li t, (Changer.vacant n li).restore c.storage.snapshot.confState=.ok t ∧
      r.prs.config=t.cfg) ∧
    r.readOnly=.newReadOnly c.readOnlyOption ∧ r.readStates=[] ∧ r.pendingReadIndexMessages=[] := by
  obtain ⟨c',t,applied,hc,ht,-,-,-,-,rfl⟩ := newRaft_eq h
  obtain ⟨hst,hro⟩ : c'.storage=c.storage ∧ c'.readOnlyOption=c.readOnlyOption := by
    rw [(c.validate_eq hc).2.2.2]
    exact ⟨rfl,rfl⟩
  rw [← hst,← hro]
  exact ⟨⟨_,_,t,ht,rfl⟩,rfl,rfl,rfl⟩

/-- The peers are added one by one. -/
def addPeers (r : Raft) (peers : List Peer) : Except Panic Raft :=
  peers.foldlM (fun (r : Raft) peer => do
    let (r,_) ← r.applyConfChange (Raftpb.asV2 { type := .addNode, nodeID := peer.id })
    .ok r) r

theorem addPeers_cons {p : Peer} {ps : List Peer} (h : r.addPeers (p::ps)=.ok r') :
    ∃ r1 cs, r.applyConfChange (Raftpb.asV2 { type := .addNode, nodeID := p.id })=
      .ok (r1,cs) ∧ r1.addPeers ps=.ok r' := by
  obtain ⟨r1,h1,h⟩ := bind_eq_ok.mp h
  obtain ⟨⟨r2,cs⟩,h2,h1⟩ := bind_eq_ok.mp h1
  cases h1
  exact ⟨r1,cs,h2,h⟩

/-- What the peers make of a configuration does not depend on the node. -/
theorem addPeers_config {s s' : Raft} {peers : List Peer} (hr : r.core.Formed) (hs : s.core.Formed)
    (hfr : r.state=.stateFollower) (hfs : s.state=.stateFollower)
    (hcfg : s.prs.config=r.prs.config) (h : r.addPeers peers=.ok r')
    (h' : s.addPeers peers=.ok s') : s'.prs.config=r'.prs.config := by
  induction peers generalizing r s with
  | nil =>
    cases h
    cases h'
    exact hcfg
  | cons p ps ih =>
    obtain ⟨r1,cs,h1,h⟩ := addPeers_cons h
    obtain ⟨s1,cs',h1',h'⟩ := addPeers_cons h'
    have hr1 := applyConfChange_formed hr h1
    have hs1 := applyConfChange_formed hs h1'
    obtain ⟨t,ht,rfl⟩ := applyConfChange_installs hfr h1
    obtain ⟨t',ht',rfl⟩ := applyConfChange_installs hfs h1'
    have hsame : t'.cfg=t.cfg := by
      refine Changer.change_cfg_eq ?_ ?_ hcfg ht ht'
      · exact hr.formed
      · exact hs.formed
    exact ih hr1 hs1 hfr hfs hsame h h'

/-- The peers become voters, and nobody else does. -/
theorem addPeers_voters {peers : List Peer} (hfr : r.state=.stateFollower) (hne : peers≠[])
    (h : r.addPeers peers=.ok r') : r'.prs.config.autoLeave=false ∧
      MajorityConfig.len r'.prs.config.voters.incoming≠0 ∧
      ∀ id, MajorityConfig.has r'.prs.config.voters.incoming id=true ↔
        MajorityConfig.has r.prs.config.voters.incoming id=true ∨
          id≠0 ∧ ∃ p ∈ peers, p.id=id := by
  induction peers generalizing r with
  | nil => exact absurd rfl hne
  | cons p ps ih =>
    obtain ⟨r1,cs,h1,h⟩ := addPeers_cons h
    obtain ⟨t,ht,rfl⟩ := applyConfChange_installs hfr h1
    obtain ⟨hauto,hlen,hrole⟩ := Changer.change_single ht
    have hvoter : ∀ id, MajorityConfig.has t.cfg.voters.incoming id=true ↔
        MajorityConfig.has r.prs.config.voters.incoming id=true ∨ id≠0 ∧ p.id=id := by
      intro id
      have hin := congrArg Role.incoming (hrole id)
      rw [Role.replay_cons,Role.replay_nil] at hin
      change MajorityConfig.has t.cfg.voters.incoming id=_ at hin
      rw [hin]
      split_ifs with hp
      · exact iff_of_true (Role.makeVoter_incoming _) (.inr ⟨hp.2,hp.1⟩)
      · exact ⟨.inl,fun hv => hv.resolve_right (fun h => hp ⟨h.2,h.1⟩)⟩
    cases ps with
    | nil =>
      cases h
      refine ⟨hauto,hlen,fun id => (hvoter id).trans ?_⟩
      simp
    | cons q qs =>
      obtain ⟨ha,hl,hv⟩ := ih (r := r.installConfig t) hfr (List.cons_ne_nil _ _) h
      refine ⟨ha,hl,fun id => (hv id).trans ?_⟩
      rw [show (r.installConfig t).prs.config.voters.incoming=t.cfg.voters.incoming from rfl,
        hvoter id]
      simp only [List.mem_cons,exists_eq_or_imp]
      tauto

end Raft

theorem RawNode.bootstrap_addPeers [Raftpb] {rn rn' : RawNode} {marshal : ConfChange → Bytes}
    {peers : List Peer} (h : rn.bootstrap marshal peers=.ok (.ok rn')) :
    ∃ l, ((rn.raft.becomeFollower 1 noNode).setLog l).addPeers peers=.ok rn'.raft := by
  unfold bootstrap at h
  split at h
  · cases h
  split at h
  · cases h
  obtain ⟨rn1,h1,h⟩ := bind_eq_ok.mp h
  cases h
  obtain ⟨l,-,h1⟩ := bind_eq_ok.mp h1
  obtain ⟨r1,hfold,h1⟩ := bind_eq_ok.mp h1
  cases h1
  exact ⟨_,hfold⟩

namespace Cluster

section

variable [Raftpb] {marshal : ConfChange → Bytes} {peers : List Peer}

theorem startHost_spec {c : Config} {draws : List Nat} {H : Host}
    (h : startHost marshal peers c draws=some H) : ∃ r, Raft.newRaft c draws=.ok r ∧
      RawNode.bootstrap ⟨r,r.softState,r.hardState⟩ marshal peers=.ok (.ok H.rn) := by
  unfold startHost at h
  split at h
  · cases h
  · rename_i rn hn
    obtain ⟨r,hr,hn⟩ := bind_eq_ok.mp hn
    cases hn
    split at h
    · rename_i rn' hb
      cases h
      exact ⟨r,hr,hb⟩
    · cases h

/-- Whatever else they are told, nodes that start on empty storages with the same peers have the
same configuration. -/
theorem startHost_config {c c' : Config} {draws draws' : List Nat} {H H' : Host}
    (hcs : c.storage.snapshot.confState=c'.storage.snapshot.confState)
    (h : startHost marshal peers c draws=some H) (h' : startHost marshal peers c' draws'=some H') :
    H'.rn.raft.prs.config=H.rn.raft.prs.config := by
  obtain ⟨r,hr,hb⟩ := startHost_spec h
  obtain ⟨r',hr',hb'⟩ := startHost_spec h'
  obtain ⟨⟨n,li,t,ht,hcfg⟩,-⟩ := Raft.newRaft_restored hr
  obtain ⟨⟨n',li',t',ht',hcfg'⟩,-⟩ := Raft.newRaft_restored hr'
  obtain ⟨l,hadd⟩ := RawNode.bootstrap_addPeers hb
  obtain ⟨l',hadd'⟩ := RawNode.bootstrap_addPeers hb'
  have hsame : r'.prs.config=r.prs.config := by
    have halike : Changer.Alike (.vacant n li) (.vacant n' li') := ⟨rfl,fun _ => rfl⟩
    obtain ⟨s,hs,ha⟩ := Changer.restore_alike halike (hcs ▸ ht)
    cases hs.symm.trans ht'
    rw [hcfg',hcfg,ha.cfg]
  have hformed : ∀ {r : Raft} {l : RaftLog}, r.core.Formed →
      ((r.becomeFollower 1 noNode).setLog l).core.Formed := by
    intro r l hr
    exact hr.alike (d := { r.core.reset 1 with state := .stateFollower, raftLog := l })
      ⟨rfl,Core.reset_tracked r.core 1⟩ (fun hl => by cases hl)
  exact Raft.addPeers_config (hformed (Raft.newRaft_formed hr)) (hformed (Raft.newRaft_formed hr'))
    rfl rfl hsame hadd hadd'

/-- The voters of a node that starts on an empty storage are its peers. -/
theorem startHost_voters {c : Config} {draws : List Nat} {H : Host}
    (hst : c.storage=.newMemoryStorage) (h : startHost marshal peers c draws=some H) :
    H.rn.raft.prs.config.autoLeave=false ∧
      MajorityConfig.len H.rn.raft.prs.config.voters.incoming≠0 ∧
      ∀ id, MajorityConfig.has H.rn.raft.prs.config.voters.incoming id=true ↔
        id≠0 ∧ ∃ p ∈ peers, p.id=id := by
  obtain ⟨r,hr,hb⟩ := startHost_spec h
  obtain ⟨⟨n,li,t,ht,hcfg⟩,-⟩ := Raft.newRaft_restored hr
  obtain ⟨l,hadd⟩ := RawNode.bootstrap_addPeers hb
  obtain ⟨hne,-⟩ := RawNode.bootstrap_spec hb
  obtain ⟨hauto,hlen,hvoters⟩ := Raft.addPeers_voters rfl hne hadd
  refine ⟨hauto,hlen,fun id => (hvoters id).trans (or_iff_right ?_)⟩
  change ¬MajorityConfig.has r.prs.config.voters.incoming id=true
  rw [hst] at ht
  cases ht
  rw [hcfg]
  exact Bool.false_ne_true

/-- A node that starts on an empty storage has committed the changes of its peers, applied none
of them, and no read on its way. -/
structure Boots (peers : List Peer) (r : Raft) : Prop where
  committed : r.raftLog.committed=peers.length
  applied : r.raftLog.applied=0
  readOnly : r.readOnly=.newReadOnly .readOnlySafe
  readStates : r.readStates=[]
  postponed : r.pendingReadIndexMessages=[]

theorem startHost_boots {c : Config} {draws : List Nat} {H : Host}
    (hst : c.storage=.newMemoryStorage) (hro : c.readOnlyOption=.readOnlySafe)
    (h : startHost marshal peers c draws=some H) : Boots peers H.rn.raft := by
  obtain ⟨r,hr,hb⟩ := startHost_spec h
  obtain ⟨-,hread,hrs,hpost⟩ := Raft.newRaft_restored hr
  have hbegun := Raft.newRaft_begun hr
  obtain ⟨-,-,l,t,b,hl,hrn⟩ := RawNode.bootstrap_spec hb
  have happ := congrArg RaftLog.applied (RaftLog.append_spec hl)
  have hzero : r.raftLog.applied=0 := by
    have hle := hbegun.applied.trans hbegun.committed
    rw [hst] at hle
    exact Nat.le_zero.mp hle
  rw [hrn]
  refine ⟨?_,happ.trans hzero,?_,hrs,hpost⟩
  · change (RawNode.bootstrapEntries marshal peers).length=_
    exact List.length_mapIdx
  · change ReadOnly.newReadOnly r.readOnly.option=_
    rw [hread,hro]
    rfl

/-- A node that StartNode starts keeps the changes of its peers, and nothing else. -/
theorem startHost_holds {P : EntryType × Bytes → Prop} {c : Config} {draws : List Nat} {H : Host}
    (hblank : P (default : Entry).payload)
    (hents : ∀ e ∈ RawNode.bootstrapEntries marshal peers, P e.payload)
    (hst : c.storage=.newMemoryStorage) (h : startHost marshal peers c draws=some H) :
    H.Holds P := by
  have hfresh := startHost_fresh (hst ▸ MemoryStorage.newMemoryStorage_whole) h
  obtain ⟨r,hr,hb⟩ := startHost_spec h
  obtain ⟨-,-,-,-,hstore,hun,-⟩ := Raft.newRaft_spec hr
  obtain ⟨-,-,l,t,b,hl,hrn⟩ := RawNode.bootstrap_spec hb
  have hempty : r.raftLog.Holds (fun e => P e.payload) := by
    refine ⟨fun e he => ?_,fun e he => ?_⟩
    · rw [hstore,hst] at he
      cases List.mem_singleton.mp he
      exact hblank
    · rw [hun] at he
      cases he
  have hlog := hempty.append hents hl
  refine ⟨⟨?_,fun m hm => ?_⟩,fun rd hrd => ?_,fun e he => ?_⟩
  · rw [hrn]
    exact ⟨hlog.storage,hlog.unstable⟩
  · rw [hfresh.msgs] at hm
    cases hm
  · cases hfresh.pending.symm.trans hrd
  · rw [hfresh.toApply] at he
    cases he

section

variable {cfg : Nat → Config} {draws : Nat → List Nat}

theorem startPeers_get {ps : List Peer} {hosts : SortedMap Host} {i : Nat} {H : Host}
    (h : startHost marshal peers (cfg i) (draws i)=some H)
    (hi : (∃ p ∈ ps, p.id=i) ∨ hosts.get? i=some H) :
    (ps.foldl (startPeer marshal peers cfg draws) hosts).get? i=some H := by
  induction ps generalizing hosts with
  | nil => exact hi.resolve_left (fun ⟨_,hp,_⟩ => by cases hp)
  | cons p ps ih =>
    refine ih ?_
    unfold startPeer
    by_cases hp : p.id=i
    · right
      rw [hp,h]
      exact SortedMap.get?_insert_self ..
    · rcases hi with ⟨q,hq,hqi⟩ | hi
      · rcases List.mem_cons.mp hq with rfl | hq
        · exact absurd hqi hp
        · exact .inl ⟨q,hq,hqi⟩
      · right
        split
        · exact (SortedMap.get?_insert_ne _ _ (Ne.symm hp)).trans hi
        · exact hi

theorem start_hosts {i : Nat} {H : Host}
    (hH : (start marshal peers cfg draws).hosts.get? i=some H) :
    startHost marshal peers (cfg i) (draws i)=some H :=
  startPeers_spec (fun i H h => by cases h) i H hH

theorem start_fresh (hid : ∀ i, (cfg i).id=i) (hst : ∀ i, (cfg i).storage=.newMemoryStorage)
    {i : Nat} {H : Host} (hH : (start marshal peers cfg draws).hosts.get? i=some H) :
    H.Fresh (RawNode.bootstrapBase marshal peers) H.rn.raft.prs.config.voters i := by
  have hw : (cfg i).storage.Whole := hst i ▸ MemoryStorage.newMemoryStorage_whole
  have hf := startHost_fresh hw (start_hosts hH)
  rw [hid i] at hf
  exact hf

/-- The hosts agree on their configuration, so that any one of them tells it. -/
theorem start_founds (hid : ∀ i, (cfg i).id=i) (hst : ∀ i, (cfg i).storage=.newMemoryStorage)
    (hro : ∀ i, (cfg i).readOnlyOption=.readOnlySafe) :
    ∃ F, F.cfg.autoLeave=false ∧
      (start marshal peers cfg draws).Founded F (RawNode.bootstrapBase marshal peers) := by
  by_cases hany : ∃ i H, (start marshal peers cfg draws).hosts.get? i=some H
  · obtain ⟨j,J,hJ⟩ := hany
    obtain ⟨hauto,hne,-⟩ := startHost_voters (hst j) (start_hosts hJ)
    refine ⟨⟨J.rn.raft.prs.config,hne⟩,hauto,?_,rfl⟩
    intro i H hH
    have hboots := startHost_boots (hst i) (hro i) (start_hosts hH)
    have hcs : (cfg j).storage.snapshot.confState=(cfg i).storage.snapshot.confState := by
      rw [hst i,hst j]
    have hcfg := startHost_config hcs (start_hosts hJ) (start_hosts hH)
    refine ⟨start_fresh hid hst hH,startHost_formed (start_hosts hH),
      hboots.applied.trans_le (Nat.zero_le _),?_,?_,hboots.readOnly,hboots.readStates,
      hboots.postponed⟩
    · rw [hboots.applied,hcfg]
      exact .start
    · unfold Succession.Trim
      have hlen : (RawNode.bootstrapBase marshal peers).log.length=peers.length :=
        List.length_mapIdx
      rw [hboots.committed,← hlen,List.drop_length]
      exact Nat.zero_le _
  · exact ⟨⟨⟨⟨some (IdSet.ofList [1]),none⟩,false,none,none⟩,by decide⟩,rfl,
      fun i H hH => absurd ⟨i,H,hH⟩ hany,rfl⟩

/-- Nodes that StartNode starts with the same peers are the founders of a cluster: all of them
have the peers as their voters, a log with the change of each peer, all of it committed and
nothing applied. -/
theorem start_agrees (hid : ∀ i, (cfg i).id=i) (hst : ∀ i, (cfg i).storage=.newMemoryStorage)
    (hro : ∀ i, (cfg i).readOnlyOption=.readOnlySafe) :
    (∃ F, (start marshal peers cfg draws).Founded F (RawNode.bootstrapBase marshal peers)) ∧
    ∀ i H, (start marshal peers cfg draws).hosts.get? i=some H →
      (∀ id, MajorityConfig.has H.rn.raft.prs.config.voters.incoming id=true ↔
        id≠0 ∧ ∃ p ∈ peers, p.id=id) ∧
      H.rn.raft.raftLog.all=RawNode.bootstrapEntries marshal peers ∧
      H.rn.raft.raftLog.committed=peers.length ∧ H.rn.raft.raftLog.applied=0 := by
  refine ⟨(start_founds hid hst hro).imp (fun _ => And.right),fun i H hH => ?_⟩
  have hboots := startHost_boots (hst i) (hro i) (start_hosts hH)
  exact ⟨(startHost_voters (hst i) (start_hosts hH)).2.2,(start_fresh hid hst hH).log,
    hboots.committed,hboots.applied⟩

end

end

section

local instance bootWire : Raftpb := Wire.small

theorem start_agrees_two : ∃ H, two.hosts.get? 2=some H ∧
    MajorityConfig.has H.rn.raft.prs.config.voters.incoming 1=true ∧
    H.rn.raft.raftLog.all=RawNode.bootstrapEntries Wire.marshalConfChange twoPeers := by
  obtain ⟨H,hH⟩ : ∃ H, two.hosts.get? 2=some H := Option.isSome_iff_exists.mp (by decide +kernel)
  have hid : ∀ i, (nodeConfig i).id=i := fun _ => rfl
  obtain ⟨hvoters,hall,-⟩ := (start_agrees hid (fun _ => rfl) (fun _ => rfl)).2 2 H hH
  exact ⟨H,hH,(hvoters 1).mpr ⟨by decide,⟨1,[]⟩,by decide,rfl⟩,hall⟩

end

end Cluster

end RaftTesting
