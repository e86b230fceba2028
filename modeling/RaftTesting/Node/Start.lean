import RaftTesting.ConfChange.Alike
import RaftTesting.Node.Session

namespace RaftTesting

/-- What validate checks, and the two limits that it fills in. -/
theorem Config.validate_eq {c c' : Config} (h : c.validate=some c') :
    c.id≠noNode ∧ 0<c.heartbeatTick ∧ c.heartbeatTick<c.electionTick ∧ c'={ c with
      maxUncommittedEntriesSize := c'.maxUncommittedEntriesSize
      maxCommittedSizePerReady := c'.maxCommittedSizePerReady } := by
  unfold validate at h
  split at h
  · cases h
  rename_i hid
  split at h
  · cases h
  split at h
  · cases h
  refine ⟨hid,by omega,by omega,?_⟩
  dsimp only at h
  split_ifs at h <;> cases h <;> rfl

/-- The hard state that a node starts with on a storage. -/
def MemoryStorage.loaded (ms : MemoryStorage) : HardState :=
  if ms.hardState={} then ⟨0,noNode,ms.dummy.index⟩ else ms.hardState

namespace Raft

variable [Raftpb] {r r' : Raft}

theorem applyConfChange_installs {cc : ConfChangeV2} {cs : ConfState}
    (hfol : r.state=.stateFollower) (h : r.applyConfChange cc=.ok (r',cs)) :
    ∃ t, Changer.change ⟨r.prs,r.raftLog.lastIndex⟩ cc=.ok t ∧ r'=r.installConfig t := by
  unfold applyConfChange at h
  split at h
  · cases h
  · rename_i t ht
    exact ⟨t,ht,(switchToConfig_follower hfol h).1⟩

/-- The node that newRaft makes: a follower with the configuration and the hard state of its
storage. -/
def begun (c : Config) (draws : List Nat) (t : Tracked) (applied : Nat) : Raft :=
  let st := c.storage.loaded
  becomeFollower { (blank c draws).installConfig t with
    term := st.term
    vote := st.vote
    raftLog := { RaftLog.newLogWithSize c.storage c.maxCommittedSizePerReady with
      committed := st.commit, applied := applied } } st.term noNode

theorem newRaft_eq {cfg : Config} {draws : List Nat} (h : newRaft cfg draws=.ok r) :
    ∃ c t applied, cfg.validate=some c ∧ Changer.restore ⟨.makeProgressTracker c.maxInflightMsgs,
        (blank c draws).raftLog.lastIndex⟩ c.storage.snapshot.confState=.ok t ∧
      c.storage.snapshot.confState.SameIds ((blank c draws).installConfig t).prs.confState ∧
      c.storage.dummy.index≤applied ∧ applied≤c.storage.loaded.commit ∧
      c.storage.loaded.commit≤c.storage.lastIndex ∧ r=begun c draws t applied := by
  unfold newRaft at h
  split at h
  · cases h
  rename_i c hc
  obtain ⟨r1,h1,h⟩ := bind_eq_ok.mp h
  obtain ⟨t,ht,hsame,rfl⟩ := restoreConfig_eq rfl h1
  obtain ⟨r2,h2,h⟩ := bind_eq_ok.mp h
  obtain ⟨l,hl,h⟩ := bind_eq_ok.mp h
  cases h
  have hlast : (RaftLog.newLogWithSize c.storage c.maxCommittedSizePerReady).lastIndex=
      c.storage.lastIndex := RaftLog.lastIndex_of_stable rfl rfl
  have hr2 : c.storage.dummy.index≤c.storage.loaded.commit ∧
      c.storage.loaded.commit≤c.storage.lastIndex ∧
      r2={ (blank c draws).installConfig t with
        term := c.storage.loaded.term
        vote := c.storage.loaded.vote
        raftLog := { RaftLog.newLogWithSize c.storage c.maxCommittedSizePerReady with
          committed := c.storage.loaded.commit } } := by
    unfold MemoryStorage.loaded
    split at h2
    · rename_i hs
      cases h2
      rw [if_pos hs]
      exact ⟨le_rfl,c.storage.dummy_le_lastIndex,rfl⟩
    · rename_i hs
      rw [if_neg hs]
      unfold loadState at h2
      split at h2
      · cases h2
      rename_i hrange
      cases h2
      obtain ⟨hlow,hhigh⟩ := not_or.mp hrange
      exact ⟨Nat.not_lt.mp hlow,(Nat.not_lt.mp hhigh).trans_eq hlast,rfl⟩
  obtain ⟨hlow,hhigh,rfl⟩ := hr2
  rcases RaftLog.appliedTo_spec hl with ⟨-,rfl⟩ | ⟨-,hle,hge,rfl⟩
  · exact ⟨c,t,_,hc,ht,hsame,le_rfl,hlow,hhigh,rfl⟩
  · exact ⟨c,t,_,hc,ht,hsame,hle,hge,hhigh,rfl⟩

/-- A new node is a follower whose log is what is stored, with nothing on its way. -/
theorem newRaft_spec {c : Config} {draws : List Nat} (h : newRaft c draws=.ok r) :
    c.id≠noNode ∧ r.id=c.id ∧ r.state=.stateFollower ∧ r.msgs=[] ∧
      r.raftLog.storage=c.storage ∧ r.raftLog.unstable=⟨none,[],c.storage.lastIndex+1⟩ ∧
      r.lead=noNode ∧ r.leadTransferee=noNode ∧ r.uncommittedSize=0 := by
  obtain ⟨c',t,applied,hc,-,-,-,-,-,rfl⟩ := newRaft_eq h
  obtain ⟨hid,-,-,hc'⟩ := c.validate_eq hc
  rw [hc']
  exact ⟨hid,rfl,rfl,rfl,rfl,rfl,rfl,rfl,rfl⟩

/-- What one node has been restored from, every other one can be. -/
theorem restoreConfig_ok {cs : ConfState} {n : Nat} (hfol : r.state=.stateFollower)
    (hprs : r.prs=.makeProgressTracker n) (h : cs.Accepted) :
    ∃ t, r.restoreConfig cs=.ok (r.installConfig t) := by
  obtain ⟨m,li,t,ht,heq⟩ := h
  have halike : Changer.Alike ⟨.makeProgressTracker m,li⟩
      ⟨.makeProgressTracker n,r.raftLog.lastIndex⟩ := ⟨rfl,fun _ => rfl⟩
  obtain ⟨t',ht',ha⟩ := Changer.restore_alike halike ht
  have hrestore : Changer.restore ⟨r.prs,r.raftLog.lastIndex⟩ cs=.ok t' := by
    rw [hprs]
    exact ht'
  have hcs : Raftpb.equivalent cs (r.installConfig t').prs.confState=true := by
    rw [Raftpb.equivalent_iff]
    simp only [ProgressTracker.confState] at heq
    simp only [installConfig,ProgressTracker.confState,ha.cfg]
    exact heq
  have hswitch : r.switchToConfig t'=.ok (r.installConfig t',(r.installConfig t').prs.confState) := by
    have hfollower : (r.installConfig t').state≠.stateLeader := by
      change r.state≠.stateLeader
      rw [hfol]
      nofun
    simp [switchToConfig,hfollower]
  refine ⟨t',?_⟩
  unfold restoreConfig
  rw [hrestore]
  change (r.switchToConfig t' >>= _)=_
  rw [hswitch]
  exact if_pos hcs

end Raft

namespace Raft

variable [Raftpb] {r r' : Raft}

/-- What newRaft takes from storage. -/
structure Begun (ms : MemoryStorage) (r : Raft) : Prop where
  state : r.state=.stateFollower
  hardState : r.hardState=ms.loaded
  log : ∃ n, r.raftLog=⟨ms,⟨none,[],ms.lastIndex+1⟩,ms.loaded.commit,r.raftLog.applied,n⟩
  dummy : ms.dummy.index≤r.raftLog.applied
  applied : r.raftLog.applied ≤ ms.loaded.commit
  committed : ms.loaded.commit ≤ ms.lastIndex
  accepted : ms.snapshot.confState.Accepted

theorem newRaft_begun {c : Config} {draws : List Nat} (h : newRaft c draws=.ok r) :
    r.Begun c.storage := by
  obtain ⟨c',t,applied,hc,ht,hsame,hlow,happ,hhigh,rfl⟩ := newRaft_eq h
  have hst : c'.storage=c.storage := by rw [(c.validate_eq hc).2.2.2]
  rw [← hst]
  refine ⟨rfl,?_,⟨_,rfl⟩,hlow,happ,hhigh,_,_,t,ht,hsame⟩
  change HardState.mk _ (if _ then _ else _) _=_
  rw [if_neg (not_not.mpr rfl)]
  rfl

/-- A node can be started on a storage whose configuration has been in use and whose hard
state fits its entries. -/
theorem newRaft_ok {c : Config} (draws : List Nat) (hc : c.validate≠none)
    (hacc : c.storage.snapshot.confState.Accepted)
    (hlow : c.storage.dummy.index≤c.storage.loaded.commit)
    (hhigh : c.storage.loaded.commit≤c.storage.lastIndex)
    (happlied : c.applied=0 ∨ c.storage.dummy.index≤c.applied ∧
      c.applied≤c.storage.loaded.commit) : ∃ r, newRaft c draws=.ok r := by
  obtain ⟨c',hc'⟩ := Option.ne_none_iff_exists'.mp hc
  obtain ⟨hst,happ⟩ : c'.storage=c.storage ∧ c'.applied=c.applied := by
    rw [(c.validate_eq hc').2.2.2]
    exact ⟨rfl,rfl⟩
  rw [← hst] at hacc hlow hhigh happlied
  rw [← happ] at happlied
  obtain ⟨t,ht⟩ := restoreConfig_ok (r := blank c' draws) rfl rfl hacc
  have hlast : (RaftLog.newLogWithSize c'.storage c'.maxCommittedSizePerReady).lastIndex=
      c'.storage.lastIndex := RaftLog.lastIndex_of_stable rfl rfl
  have hload : ∃ r2 : Raft, (if c'.storage.hardState={} then .ok ((blank c' draws).installConfig t)
      else ((blank c' draws).installConfig t).loadState c'.storage.hardState)=.ok r2 ∧
      r2.raftLog={ RaftLog.newLogWithSize c'.storage c'.maxCommittedSizePerReady with
        committed := c'.storage.loaded.commit } := by
    unfold MemoryStorage.loaded at hlow hhigh ⊢
    split_ifs at hlow hhigh ⊢ with hs
    · exact ⟨_,rfl,rfl⟩
    · have hle := hhigh.trans_eq hlast.symm
      exact ⟨_,if_neg (not_or.mpr ⟨Nat.not_lt.mpr hlow,Nat.not_lt.mpr hle⟩),rfl⟩
  obtain ⟨r2,h2,hlog⟩ := hload
  have hmove : ∃ l, r2.raftLog.appliedTo c'.applied=.ok l := by
    rw [hlog]
    unfold RaftLog.appliedTo
    rcases happlied with hz | ⟨h3,h4⟩
    · rw [if_pos hz]
      exact ⟨_,rfl⟩
    · split
      · exact ⟨_,rfl⟩
      · exact ⟨_,if_neg (not_or.mpr ⟨Nat.not_lt.mpr h4,Nat.not_lt.mpr h3⟩)⟩
  obtain ⟨l,hl⟩ := hmove
  unfold newRaft
  rw [hc']
  exact ⟨_,bind_eq_ok.mpr ⟨_,ht,bind_eq_ok.mpr ⟨r2,h2,bind_eq_ok.mpr ⟨l,hl,rfl⟩⟩⟩⟩

end Raft

namespace RawNode

theorem bootstrapEntries_numbered (marshal : ConfChange → Bytes) (peers : List Peer) :
    Numbered 0 (bootstrapEntries marshal peers) := by
  intro k e hk
  simp only [bootstrapEntries,List.getElem?_mapIdx,Option.map_eq_some_iff] at hk
  obtain ⟨p,_,rfl⟩ := hk
  dsimp only
  omega

/-- Bootstrap appends and commits one configuration entry for each peer; applying the
changes touches the configuration only. -/
theorem bootstrap_spec [Raftpb] {rn rn' : RawNode} {marshal : ConfChange → Bytes}
    {peers : List Peer} (h : rn.bootstrap marshal peers=.ok (.ok rn')) :
    peers≠[] ∧ rn.raft.raftLog.storage.lastIndex=0 ∧ ∃ l t b,
      rn.raft.raftLog.append (bootstrapEntries marshal peers)=.ok l ∧
      rn'={ rn with
        raft := { ((rn.raft.becomeFollower 1 noNode).setLog { l with
          committed := (bootstrapEntries marshal peers).length }) with prs := t, isLearner := b }
        prevHardSt := {} } := by
  unfold bootstrap at h
  split at h
  · cases h
  rename_i hne
  split at h
  · cases h
  rename_i hlast
  rw [not_not] at hlast
  obtain ⟨rn1,h1,h⟩ := bind_eq_ok.mp h
  cases h
  obtain ⟨l,hl,h1⟩ := bind_eq_ok.mp h1
  obtain ⟨r1,hfold,h1⟩ := bind_eq_ok.mp h1
  cases h1
  have hkeep : ∃ t b, r1={ ((rn.raft.becomeFollower 1 noNode).setLog { l with
      committed := (bootstrapEntries marshal peers).length }) with prs := t, isLearner := b } := by
    refine foldlM_rel (R := fun a b : Raft => a.state=.stateFollower → ∃ t l,
      b={ a with prs := t, isLearner := l }) (fun a _ => ⟨_,_,rfl⟩) ?_ ?_ hfold rfl
    · intro a b d hab hbd ha
      obtain ⟨t,l,rfl⟩ := hab ha
      obtain ⟨t',l',rfl⟩ := hbd ha
      exact ⟨t',l',rfl⟩
    · intro p _ a b hab ha
      obtain ⟨⟨a',cs⟩,h1,h2⟩ := bind_eq_ok.mp hab
      cases h2
      obtain ⟨t,-,rfl⟩ := Raft.applyConfChange_installs ha h1
      exact ⟨_,_,rfl⟩
  obtain ⟨t,b,rfl⟩ := hkeep
  refine ⟨?_,hlast,l,t,b,hl,rfl⟩
  rintro rfl
  exact hne rfl

end RawNode

/-- A storage that an application has kept for a node: consecutive entries, and a snapshot
of committed ones. -/
structure MemoryStorage.Kept (ms : MemoryStorage) : Prop where
  stored : Numbered ms.dummy.index ms.stored
  snapshot : ms.snapshot.index ≤ max ms.hardState.commit ms.dummy.index

namespace Session

open LogSession RaftTesting.Core

variable [Raftpb] {x : Session}

/-- A new node over a storage, which may be bootstrapped. -/
inductive Start : Session → Prop
  | fresh {c : Config} {draws : List Nat} {rn : RawNode} (hms : c.storage.Kept)
      (h : RawNode.newRawNode c draws=.ok rn) : Start { rn := rn }
  | boot {c : Config} {draws : List Nat} {rn rn' : RawNode} {marshal : ConfChange → Bytes}
      {peers : List Peer} (hms : c.storage.Kept) (h : RawNode.newRawNode c draws=.ok rn)
      (hb : rn.bootstrap marshal peers=.ok (.ok rn')) : Start { rn := rn' }

omit [Raftpb] in
theorem begun_joined {ms : MemoryStorage} {r : Raft} (hms : ms.Kept) (h : r.Begun ms) :
    LogSession.Joined { log := r.raftLog, settled := r.raftLog.applied } := by
  obtain ⟨n,hlog⟩ := h.log
  have hj := resume_joined n hms.stored h.dummy h.applied h.committed
  rw [← hlog] at hj
  exact hj

omit [Raftpb] in
/-- A storage never holds a snapshot ahead of the commit index. -/
theorem begun_old {ms : MemoryStorage} {r : Raft} (hms : ms.Kept) (h : r.Begun ms) :
    r.raftLog.storage.snapshot.index≤r.raftLog.committed := by
  obtain ⟨n,hlog⟩ := h.log
  have hdummy := h.dummy.trans h.applied
  have hle : ms.hardState.commit ≤ ms.loaded.commit := by
    unfold MemoryStorage.loaded
    split_ifs with hs
    · rw [hs]
      exact Nat.zero_le _
    · exact le_rfl
  rw [hlog]
  exact hms.snapshot.trans (max_le hle hdummy)

omit [Raftpb] in
/-- Bootstrap appends the entries of the peers and commits them. -/
theorem boot_joined {ms : MemoryStorage} {r : Raft} {l : RaftLog} {ents : List Entry}
    (hms : ms.Kept) (h : r.Begun ms) (hlast : r.raftLog.storage.lastIndex=0)
    (hn : Numbered 0 ents) (hne : ents≠[]) (hl : r.raftLog.append ents=.ok l) :
    l.committed=0 ∧ l.unstable.snapshot=none ∧ l.storage=ms ∧ l.applied=0 ∧
      LogSession.Joined { log := { l with committed := ents.length }, settled := l.applied } := by
  have hj := begun_joined hms h
  obtain ⟨n,hlog⟩ := h.log
  have hst : r.raftLog.storage=ms := by rw [hlog]
  obtain ⟨u,hu,-,-,hsnap,hoff,-,hend,-⟩ :=
    RaftLog.append_cases hj.base.unstable hj.base.pos hn hne hl
  dsimp only at hsnap hoff hend
  have hlen := List.length_pos_of_ne_nil hne
  have hj1 := (hj.append hn hl).1
  have hcommitted : r.raftLog.committed=0 := by
    have hle := h.committed
    rw [hst] at hlast
    rw [hlast] at hle
    rw [hlog]
    exact Nat.le_zero.mp hle
  have happlied : l.applied=r.raftLog.applied := by rw [hu]
  have hzero : l.committed=0 := by rw [hu]; exact hcommitted
  have hle : ents.length≤l.lastIndex := by
    have hue : u.entries≠[] := by
      intro hnil
      rw [hnil,List.length_nil] at hend
      omega
    rw [hu,RaftLog.lastIndex_of_entries (l := { r.raftLog with unstable := u }) hue]
    dsimp only
    omega
  have hj2 := (hj1.cursors (c := ents.length) (a := l.applied)
    (hzero.trans_le (Nat.zero_le _)) le_rfl
    (hj1.base.applied.trans (hzero.trans_le (Nat.zero_le _))) (le_max_of_le_right hle)).1
  refine ⟨hzero,?_,?_,?_,?_⟩
  · rw [hu]
    change u.snapshot=none
    rw [hsnap,hlog]
  · rw [hu]
    exact hst
  · exact Nat.le_zero.mp (hzero ▸ hj1.base.applied)
  · rw [happlied]
    rw [happlied] at hj2
    exact hj2

omit [Raftpb] in
theorem bootstrapEntries_ne (marshal : ConfChange → Bytes) {peers : List Peer} (h : peers≠[]) :
    RawNode.bootstrapEntries marshal peers≠[] := by
  intro hnil
  have hlen := congrArg List.length hnil
  unfold RawNode.bootstrapEntries at hlen
  rw [List.length_mapIdx] at hlen
  exact h (List.length_eq_zero_iff.mp hlen)

theorem Start.follower (h : x.Start) : x.rn.raft.state=.stateFollower := by
  cases h with
  | fresh hms h =>
    obtain ⟨r,hr,h⟩ := bind_eq_ok.mp h
    cases h
    exact (Raft.newRaft_begun hr).state
  | boot hms h hb =>
    obtain ⟨-,-,l,t,b,-,rfl⟩ := RawNode.bootstrap_spec hb
    rfl

theorem Start.sane (h : x.Start) : x.Sane ∧ x.log.Joined := by
  cases h with
  | fresh hms h =>
    obtain ⟨r,hr,h⟩ := bind_eq_ok.mp h
    cases h
    have hb := Raft.newRaft_begun hr
    have hj := begun_joined hms hb
    obtain ⟨n,hlog⟩ := hb.log
    refine ⟨⟨hj.base,begun_old hms hb,.of_none ?_⟩,hj⟩
    change r.raftLog.unstable.snapshot=none
    rw [hlog]
  | @boot c draws rn rn' marshal peers hms h hboot =>
    obtain ⟨r,hr,h⟩ := bind_eq_ok.mp h
    cases h
    have hb := Raft.newRaft_begun hr
    obtain ⟨hne,hlast,l,t,b,hl,rfl⟩ := RawNode.bootstrap_spec hboot
    obtain ⟨hzero,hsnap,hst,-,hj⟩ := boot_joined hms hb hlast
      (RawNode.bootstrapEntries_numbered marshal peers) (bootstrapEntries_ne marshal hne) hl
    refine ⟨⟨hj.base,?_,.of_none hsnap⟩,hj⟩
    have hold := begun_old hms hb
    have hspec := RaftLog.append_spec hl
    change l.storage.snapshot.index≤_
    have hsame : l.storage.snapshot.index≤l.committed := by
      rw [hspec]
      exact hold
    exact hsame.trans (hzero.trans_le (Nat.zero_le _))

end Session

end RaftTesting
