import RaftTesting.Cluster.Fixed
import RaftTesting.Cluster.Succession
import RaftTesting.Node.HardState
import RaftTesting.Node.Members

namespace RaftTesting

open Consensus

/-- What all hosts are started with. -/
structure Founding where
  cfg : TrackerConfig
  voters : MajorityConfig.len cfg.voters.incoming≠0

def Founding.succession [Raftpb] (F : Founding) : Succession Entry TrackerConfig :=
  RaftTesting.succession F.cfg F.voters

/-- A MsgApp goes on behind the commit index that it tells with at most one change. -/
def Message.Trimmed [Raftpb] (F : Founding) (h : Hist Entry) (m : Message) : Prop :=
  m.type=.msgApp → F.succession.Trim m.commit ((h.llog m.term).take (m.index+m.entries.length))

/-- The application has applied the first a entries of a node's log. A node that stands for
election has applied all changes that it knows to be committed, and a leader has at most one
that is not applied. -/
structure Core.Placed [Raftpb] (F : Founding) (a : Nat) (c : Core) : Prop where
  applied : c.raftLog.applied≤a
  committed : a≤c.raftLog.committed
  path : F.succession.Path (F.succession.confs (c.raftLog.all.take a)) c.prs.config
  formed : c.Formed
  trim : F.succession.Trim c.raftLog.committed c.raftLog.all
  standing : c.state=.stateCandidate ∨ c.state=.statePreCandidate →
    F.succession.confs ((c.raftLog.all.take c.raftLog.committed).drop a)=[]
  leads : c.state=.stateLeader → F.succession.Trim a c.raftLog.all ∧
    F.succession.confs (c.raftLog.all.drop c.pendingConfIndex)=[] ∧
    (termAt c.raftLog.all c.raftLog.committed=c.term ∨
      F.succession.confs ((c.raftLog.all.take c.raftLog.committed).drop a)=[])

section

variable [Raftpb] {F : Founding} {B : Base Entry} {h h' : Hist Entry} {i a : Nat}
  {S : Message → Prop} {c c' : Core}

omit [Raftpb] in
/-- The entries in front of the commit index stay where they are. -/
theorem CoreInv.committed_covers (hc : CoreInv B h i c) (hc' : CoreInv B h' i c')
    (hh : HistInv B h') (g : h.Grown i h')
    (hle : c.raftLog.committed≤c'.raftLog.committed) :
    Covers c.raftLog.committed c'.raftLog.all c.raftLog.all := by
  obtain ⟨T,_,hcm,hcov⟩ := hc.node.commit
  obtain ⟨T',_,hcm',hcov'⟩ := hc'.node.commit
  have hk' : c.raftLog.committed≤h'.comm T' := hle.trans hcm'
  have hsame := hh.comm_covers hk' (hcm.trans (g.comm T))
  exact ((hcov'.mono hle).trans hsame).trans (hcov.grow (g.llog T)).symm

/-- What a place depends on. -/
theorem Core.Placed.same (hp : c.Placed F a) (hall : c'.raftLog.all=c.raftLog.all)
    (happ : c'.raftLog.applied=c.raftLog.applied)
    (hcm : c'.raftLog.committed=c.raftLog.committed) (hprs : c'.prs=c.prs)
    (hs : c'.state=c.state) (ht : c'.term=c.term)
    (hpend : c'.pendingConfIndex=c.pendingConfIndex) : c'.Placed F a := by
  refine ⟨?_,?_,?_,hp.formed.alike ?_ (fun hl => .inl (hs.symm.trans hl)),?_,?_,?_⟩
  · rw [happ]
    exact hp.applied
  · rw [hcm]
    exact hp.committed
  · rw [hall,hprs]
    exact hp.path
  · unfold tracked
    rw [hprs]
    exact ⟨rfl,fun _ => rfl⟩
  · rw [hall,hcm]
    exact hp.trim
  · rw [hall,hcm,hs]
    exact hp.standing
  · rw [hall,hcm,hs,ht,hpend]
    exact hp.leads

/-- One more entry is applied. -/
theorem Core.Placed.next (hp : c.Placed F a) (hlt : a<c.raftLog.committed)
    (hlog : c'.raftLog=c.raftLog) (hs : c'.state=c.state) (ht : c'.term=c.term)
    (hpend : c'.pendingConfIndex=c.pendingConfIndex) (hf : c'.Formed)
    (hpath : F.succession.Path (F.succession.confs (c.raftLog.all.take (a+1))) c'.prs.config) :
    c'.Placed F (a+1) where
  applied := by
    rw [hlog]
    exact hp.applied.trans (Nat.le_succ a)
  committed := by
    rw [hlog]
    exact hlt
  path := by
    rw [hlog]
    exact hpath
  formed := hf
  trim := by
    rw [hlog]
    exact hp.trim
  standing := by
    rw [hlog,hs]
    exact fun hs => Succession.confs_drop_mono (hp.standing hs) (Nat.le_succ a)
  leads := by
    rw [hlog,hs,ht,hpend]
    intro hs
    obtain ⟨htrim,hdrop,hown⟩ := hp.leads hs
    exact ⟨htrim.mono (Nat.le_succ a),hdrop,
      hown.imp_right (fun hnone => Succession.confs_drop_mono hnone (Nat.le_succ a))⟩

/-- What hup checks: no change is left between the applied and the committed entries. -/
theorem Core.HupOk.settled_confs (hc : c.raftLog.Whole) (hup : c.HupOk)
    (ha : c.raftLog.applied≤a) :
    F.succession.confs ((c.raftLog.all.take c.raftLog.committed).drop a)=[] := by
  obtain ⟨ents,hs,hn⟩ := hup.checked
  obtain ⟨-,-,-,hall⟩ := hc.slice_spec hs
  have hents := hall rfl
  rw [Nat.add_sub_cancel,Nat.add_sub_add_right,← List.drop_take] at hents
  refine Succession.confs_drop_mono ?_ ha
  rw [← hents]
  rcases hn with hn | hle
  · exact List.length_eq_zero_iff.mp hn
  · have hnil : ents=[] := by
      rw [hents]
      refine List.drop_eq_nil_of_le ?_
      rw [List.length_take]
      omega
    rw [hnil]
    rfl

omit [Raftpb] in
theorem Raft.stampEntries_cons (t li : Nat) (e : Entry) (es : List Entry) :
    stampEntries t li (e::es)={ e with term := t, index := li+1 }::stampEntries t (li+1) es := by
  unfold stampEntries
  rw [List.mapIdx_cons]
  congr 1
  refine List.mapIdx_eq_mapIdx_iff.mpr (fun j hj => ?_)
  congr 1
  omega

theorem Raft.stampEntries_confs (t li : Nat) (es : List Entry) :
    (F.succession.confs (stampEntries t li es)).length=(es.filter Entry.isConf).length := by
  induction es generalizing li with
  | nil => rfl
  | cons e es ih =>
    rw [stampEntries_cons]
    change (List.filter Entry.isConf _).length=_
    have hsame : ({ e with term := t, index := li+1 } : Entry).isConf=e.isConf := rfl
    have ih : ((stampEntries t (li+1) es).filter Entry.isConf).length=
      (es.filter Entry.isConf).length := ih (li+1)
    rw [List.filter_cons,List.filter_cons,hsame]
    split_ifs
    · rw [List.length_cons,List.length_cons,ih]
    · exact ih

namespace Core

/-- A leader's log with new entries behind it, when at most one of them is a change and only
if all changes before it are applied. -/
theorem Placed.leads_append (hp : c.Placed F a) (hs : c.state=.stateLeader) {es : List Entry}
    {l : RaftLog} {p : Nat} (hall : l.all=c.raftLog.all++es)
    (hcm : l.committed=c.raftLog.committed) (hlen : c.raftLog.committed≤c.raftLog.all.length)
    (hfew : (F.succession.confs es).length≤1)
    (hnone : c.raftLog.applied<c.pendingConfIndex → F.succession.confs es=[])
    (hpend : F.succession.confs (l.all.drop p)=[]) : F.succession.Trim a l.all ∧
    F.succession.confs (l.all.drop p)=[] ∧ (termAt l.all l.committed=c.term ∨
      F.succession.confs ((l.all.take l.committed).drop a)=[]) := by
  obtain ⟨htrim,hdrop,hown⟩ := hp.leads hs
  refine ⟨?_,hpend,?_⟩
  · rw [hall]
    by_cases hlt : c.raftLog.applied<c.pendingConfIndex
    · exact htrim.append_nil (hnone hlt)
    · have hle := (Nat.not_lt.mp hlt).trans hp.applied
      exact .append_few (Succession.confs_drop_mono hdrop hle) hfew
  · rw [hall,hcm,termAt_append_left hlen,List.take_append_of_le_length hlen]
    exact hown

/-- The first pending index behind a batch that the leader has screened. -/
theorem Screened.confs_behind {es : List Entry} {t p p' : Nat} {log : List Entry}
    (hsc : Screened log.length c.raftLog.applied 0 p es p') (ha : c.raftLog.applied≤log.length)
    (hlog : F.succession.confs (log.drop p)=[]) :
    F.succession.confs ((log++Raft.stampEntries t log.length es).drop p')=[] := by
  refine Succession.confs_drop_eq_nil.mpr (fun j e hj he => ?_)
  rcases Nat.lt_or_ge j log.length with hlt | hge
  · rw [List.getElem?_append_left hlt] at he
    exact Succession.confs_drop_eq_nil.mp hlog j e ((hsc.le ha).trans hj) he
  · rw [List.getElem?_append_right hge] at he
    unfold Raft.stampEntries at he
    rw [List.getElem?_mapIdx,Option.map_eq_some_iff] at he
    obtain ⟨e',he',rfl⟩ := he
    refine eq_false_of_ne_true (fun hconf => ?_)
    have := hsc.covers ha he' hconf
    omega

end Core

omit [Raftpb] in
theorem CoreInv.append_all (hc : CoreInv B h i c) {es : List Entry} {l : RaftLog}
    (ha : c.raftLog.append (Raft.stampEntries c.term c.raftLog.lastIndex es)=.ok l) :
    l.all=c.raftLog.all++Raft.stampEntries c.term c.raftLog.all.length es ∧
      l.committed=c.raftLog.committed := by
  have hlast := hc.log.lastIndex_eq
  have hn := Raft.stampEntries_numbered c.term c.raftLog.lastIndex es
  obtain ⟨-,hall,-,-⟩ := hc.log.append ha hn hlast.le (fun _ => hlast)
  rw [hlast,List.take_length] at hall
  exact ⟨hall,by rw [RaftLog.append_spec ha]⟩

namespace Core

variable (hp : c.Placed F a) (hc : CoreInv B h i c)
include hp hc

theorem Placed.leads_screened (hs : c.state=.stateLeader) {es : List Entry} {l : RaftLog} {p : Nat}
    (hsc : Screened c.raftLog.lastIndex c.raftLog.applied 0 c.pendingConfIndex es p)
    (ha : c.raftLog.append (Raft.stampEntries c.term c.raftLog.lastIndex es)=.ok l) :
    F.succession.Trim a l.all ∧ F.succession.confs (l.all.drop p)=[] ∧
      (termAt l.all l.committed=c.term ∨
        F.succession.confs ((l.all.take l.committed).drop a)=[]) := by
  have hlen := hc.committed_le
  have happ : c.raftLog.applied≤c.raftLog.all.length := by
    have := hp.applied
    have := hp.committed
    omega
  obtain ⟨hall,hcm⟩ := hc.append_all ha
  rw [hc.log.lastIndex_eq] at hsc
  obtain ⟨hfew,hnone⟩ := hsc.few happ
  have hcount := Raft.stampEntries_confs (F := F) c.term c.raftLog.all.length es
  refine hp.leads_append hs hall hcm hlen (hcount.trans_le hfew) (fun hlt => ?_) ?_
  · rw [hnone hlt] at hcount
    exact List.length_eq_zero_iff.mp hcount
  · rw [hall]
    exact hsc.confs_behind happ (hp.leads hs).2.1

theorem Placed.leads_leave (hs : c.state=.stateLeader) {l : RaftLog}
    (hpend : c.pendingConfIndex≤c.raftLog.applied)
    (ha : c.raftLog.append (Raft.stampEntries c.term c.raftLog.lastIndex [Raft.autoLeaveEntry])=
      .ok l) : F.succession.Trim a l.all ∧ F.succession.confs (l.all.drop l.lastIndex)=[] ∧
      (termAt l.all l.committed=c.term ∨
        F.succession.confs ((l.all.take l.committed).drop a)=[]) := by
  have hlast := hc.log.lastIndex_eq
  have hn := Raft.stampEntries_numbered c.term c.raftLog.lastIndex [Raft.autoLeaveEntry]
  obtain ⟨hw,-,-,-⟩ := hc.log.append ha hn hlast.le (fun _ => hlast)
  obtain ⟨hall,hcm⟩ := hc.append_all ha
  refine hp.leads_append hs hall hcm hc.committed_le ?_ (fun hlt => absurd hpend (by omega)) ?_
  · rw [Raft.stampEntries_confs]
    exact List.length_filter_le _ _
  · rw [hw.lastIndex_eq,List.drop_length]
    rfl

/-- What a leader or candidate has to keep to, from one move to the next. -/
theorem Move.leads (hh : HistInv B h) (hm : Move S c c') (hs : c'.state=.stateLeader) :
    F.succession.Trim a c'.raftLog.all ∧
    F.succession.confs (c'.raftLog.all.drop c'.pendingConfIndex)=[] ∧
    (termAt c'.raftLog.all c'.raftLog.committed=c'.term ∨
      F.succession.confs ((c'.raftLog.all.take c'.raftLog.committed).drop a)=[]) := by
  cases hm with
  | send hsend =>
    have hf := hsend.frame
    rw [hf.raftLog,hf.pendingConfIndex,hf.term]
    exact hp.leads (hf.state.symm.trans hs)
  | follow | preStand | stand => cases hs
  | poll hcand => rcases hcand with hcand | hcand <;> cases hcand.symm.trans hs
  | elect hcand =>
    have hnone := hp.standing (.inl hcand)
    refine ⟨hp.trim.lower hnone,?_,.inr hnone⟩
    change F.succession.confs (c.raftLog.all.drop c.raftLog.lastIndex)=[]
    rw [hc.log.lastIndex_eq,List.drop_length]
    rfl
  | append hl hsc ha => exact hp.leads_screened hc hl hsc ha
  | pend hl hsc =>
    obtain ⟨htrim,hdrop,hown⟩ := hp.leads hl
    refine ⟨htrim,Succession.confs_drop_mono hdrop (hsc.le ?_),hown⟩
    have := hp.applied
    have := hp.committed
    have := hc.committed_le
    rw [hc.log.lastIndex_eq]
    omega
  | commit hl ha =>
    obtain ⟨_,_,ht,rfl⟩ := hc.commit_spec hh hl ha
    obtain ⟨htrim,hdrop,_⟩ := hp.leads hl
    exact ⟨htrim,hdrop,.inl ht⟩
  | ack hl => exact hp.leads hl
  | vote => exact hp.leads hs
  | accept _ _ _ hfol | stale _ _ _ hfol | beat _ _ _ hfol | skip _ _ _ hfol
  | forward _ _ _ hfol | restore _ _ _ _ hfol => cases hfol.symm.trans hs

theorem Move.standing (hm : Move S c c')
    (hs : c'.state=.stateCandidate ∨ c'.state=.statePreCandidate) :
    F.succession.confs ((c'.raftLog.all.take c'.raftLog.committed).drop a)=[] := by
  have hup : c.HupOk → F.succession.confs ((c.raftLog.all.take c.raftLog.committed).drop a)=[] :=
    fun hup => hup.settled_confs hc.log hp.applied
  have hnot : ∀ {s : StateType}, s=.stateFollower ∨ s=.stateLeader →
      ¬(s=.stateCandidate ∨ s=.statePreCandidate) := by
    rintro s (rfl | rfl) (hs | hs) <;> cases hs
  cases hm with
  | send hsend =>
    have hf := hsend.frame
    rw [hf.raftLog]
    exact hp.standing (hf.state ▸ hs)
  | follow => exact absurd hs (hnot (.inl rfl))
  | preStand _ hok => exact hup hok
  | stand _ hok => exact hok.elim (fun hpre => hp.standing (.inr hpre)) hup
  | poll | vote => exact hp.standing hs
  | elect => exact absurd hs (hnot (.inr rfl))
  | append hl | pend hl | commit hl | ack hl => exact absurd hs (hnot (.inr hl))
  | accept _ _ _ hfol | stale _ _ _ hfol | beat _ _ _ hfol | skip _ _ _ hfol
  | forward _ _ _ hfol | restore _ _ _ _ hfol => exact absurd hs (hnot (.inl hfol))

/-- The entries that a follower takes over go on behind what their sender has committed. -/
theorem Move.trim (hh : HistInv B h) (hS : ∀ m, S m → Given h i m ∧ m.Trimmed F h)
    (hm : Move S c c') : F.succession.Trim c'.raftLog.committed c'.raftLog.all := by
  by_cases hl : c'.state=.stateLeader
  · obtain ⟨htrim,_⟩ := hm.leads hp hc hh hl
    exact htrim.mono (hp.committed.trans hm.hardLe.committed)
  cases hm with
  | send hsend =>
    rw [hsend.frame.raftLog]
    exact hp.trim
  | elect => exact absurd rfl hl
  | append hs | pend hs | commit hs | ack hs => exact absurd hs hl
  | follow | preStand | stand | poll | vote | stale | skip => exact hp.trim
  | beat | forward =>
    change F.succession.Trim (c.raftLog.commitTo _).1.committed (c.raftLog.commitTo _).1.all
    rw [RaftLog.commitTo_fst]
    refine hp.trim.mono ?_
    dsimp only
    split_ifs <;> omega
  | @accept m l last hm ht hterm hfol _ ha =>
    obtain ⟨⟨hok,-,-⟩,htrim⟩ := hS m hm
    unfold Message.Ok at hok
    rw [ht] at hok
    obtain ⟨hlead,hseg,hlt,-⟩ := hok
    have htrim := htrim ht
    rw [hterm] at hlead hseg hlt htrim
    rw [hlt] at ha
    have hL := hh.llog_inv hlead
    obtain ⟨rfl,-,-,hall,hcommit,-,-⟩ := hc.log.maybeAppend hc.node.log.coherent
      hL.coherent (fun k => hh.termAt_pos hL) hseg ha
    change F.succession.Trim l.committed l.all
    rcases hall with ⟨-,hall⟩ | ⟨-,hall⟩
    · rw [hall]
      exact hp.trim.mono (by omega)
    · rw [hall]
      rcases Nat.le_total m.commit (m.index+m.entries.length) with hle | hge
      · exact htrim.mono (by omega)
      · -- all that is sent is committed
        have hnil : ((h.llog c.term).take (m.index+m.entries.length)).drop l.committed=[] := by
          refine List.drop_eq_nil_of_le ?_
          rw [List.length_take]
          omega
        unfold Succession.Trim
        rw [hnil]
        exact Nat.zero_le _
  | restore _ hm ht => exact absurd ht (hS _ hm).1.not_snap

theorem Move.placed (hh : HistInv B h) (hS : ∀ m, S m → Given h i m ∧ m.Trimmed F h)
    (hcov : Covers c.raftLog.committed c'.raftLog.all c.raftLog.all) (hm : Move S c c') :
    c'.Placed F a where
  applied := hm.fixed.2 ▸ hp.applied
  committed := hp.committed.trans hm.hardLe.committed
  path := by
    rw [(hcov.mono hp.committed).2,hm.config_eq (fun m hm => (hS m hm).1.not_snap)]
    exact hp.path
  formed := hm.formed (fun m hm => (hS m hm).1.not_snap) hp.formed
  trim := hm.trim hp hc hh hS
  standing := hm.standing hp hc
  leads := hm.leads hp hc hh

end Core

end

/-- A node in its place, with the history it shares with the others. -/
structure Ordered [Raftpb] (F : Founding) (B : Base Entry) (h : Hist Entry) (i a : Nat)
    (c : Core) : Prop where
  hist : HistInv B h
  governed : h.Governed F.succession B
  core : CoreInv B h i c
  placed : c.Placed F a
  trimmed : ∀ m ∈ c.msgs, m.Trimmed F h

/-- What a step of node i keeps. -/
structure Carried [Raftpb] (F : Founding) (B : Base Entry) (i a : Nat) (h : Hist Entry) (c : Core)
    (h' : Hist Entry) (c' : Core) : Prop extends Shift i h c h' c' where
  ordered : Ordered F B h' i a c'

section

variable [Raftpb] {F : Founding} {B : Base Entry} {h h' h'' : Hist Entry} {i a : Nat}
  {S : Message → Prop} {c c' c'' : Core}

theorem Message.Trimmed.grown {m : Message} (hm : m.Trimmed F h) (hok : m.Ok h)
    (g : h.Grown i h') : m.Trimmed F h' := by
  intro ht
  have htrim := hm ht
  unfold Message.Ok at hok
  rw [ht] at hok
  have hfit := hok.2.1.fits
  rwa [(Covers.of_isPrefix (g.llog m.term) hfit).2]

theorem Carried.refl (ho : Ordered F B h i a c) : Carried F B i a h c h c := ⟨.refl i h c,ho⟩

theorem Carried.trans (p : Carried F B i a h c h' c') (p' : Carried F B i a h' c' h'' c'') :
    Carried F B i a h c h'' c'' := ⟨p.toShift.trans p'.toShift,p'.ordered⟩

namespace Core

/-- A move makes a leader, or commits, or does neither. -/
theorem Move.kinds (hm : Move S c c') :
    (∃ pr, c.state=.stateCandidate ∧ c.prs.tallyVotes=.voteWon ∧
      (c.reset c.term).prs.progress.get? c.id=some pr ∧
      c'={ (c.reset c.term).setProgress c.id pr.becomeReplicate with
        state := .stateLeader
        pendingConfIndex := c.raftLog.lastIndex }) ∨
    (∃ l, c.state=.stateLeader ∧ c.raftLog.maybeCommit c.prs.committed c.term=.ok (l,true) ∧
      c'=c.setLog l) ∨
    (c.state=.stateCandidate → c'.state≠.stateLeader) ∧
      (c.state=.stateLeader → c'.raftLog.committed=c.raftLog.committed) := by
  have hfol : c.state=.stateFollower → ∀ {P : Prop}, c.state=.stateLeader → P := by
    intro hs P hl
    cases hs.symm.trans hl
  cases hm with
  | elect hs ht hget => exact .inl ⟨_,hs,ht,hget,rfl⟩
  | commit hs ha => exact .inr (.inl ⟨_,hs,ha,rfl⟩)
  | send hsend =>
    have hf := hsend.frame
    refine .inr (.inr ⟨fun hs hl => ?_,fun _ => by rw [hf.raftLog]⟩)
    cases hs.symm.trans (hf.state.symm.trans hl)
  | follow | preStand | stand => exact .inr (.inr ⟨fun _ => nofun,fun _ => rfl⟩)
  | poll | vote =>
    refine .inr (.inr ⟨fun hs hl => ?_,fun _ => rfl⟩)
    cases hs.symm.trans hl
  | append hl _ ha =>
    refine .inr (.inr ⟨fun hs => ?_,fun _ => ?_⟩)
    · cases hs.symm.trans hl
    · have hcm := congrArg RaftLog.committed (RaftLog.append_spec ha)
      exact hcm
  | pend hl | ack hl =>
    refine .inr (.inr ⟨fun hs => ?_,fun _ => rfl⟩)
    cases hs.symm.trans hl
  | accept _ _ _ hs | stale _ _ _ hs | beat _ _ _ hs | skip _ _ _ hs | forward _ _ _ hs
  | restore _ _ _ _ hs =>
    refine .inr (.inr ⟨fun hs' => ?_,hfol hs⟩)
    cases hs.symm.trans hs'

/-- A MsgApp is the leader's, and tells its commit index. -/
theorem Move.app_said (hm : Move S c c') {m : Message} (hmem : m ∈ c'.msgs) (ht : m.type=.msgApp) :
    m ∈ c.msgs ∨ c'.state=.stateLeader ∧ m.term=c'.term ∧ m.commit=c'.raftLog.committed := by
  have hnew : ∀ {n : Message}, n.type≠.msgApp → m ∈ c.msgs++[n] → m ∈ c.msgs := by
    intro n hn hmem
    rcases List.mem_append.mp hmem with hmem | hmem
    · exact hmem
    · rw [List.mem_singleton.mp hmem] at ht
      exact absurd ht hn
  cases hm with
  | send hsend =>
    cases hsend with
    | app hl =>
      rcases List.mem_append.mp hmem with hmem | hmem
      · exact .inl hmem
      · rw [List.mem_singleton.mp hmem]
        exact .inr ⟨hl,rfl,rfl⟩
    | snap | heartbeat => exact .inl (hnew (by nofun) hmem)
    | plain hplain =>
      refine .inl (hnew (fun hn => ?_) hmem)
      unfold Plain at hplain
      rw [hn] at hplain
      exact hplain
    | track | back => exact .inl hmem
    | read hr =>
      refine .inl ((hr.said.2 m hmem).resolve_right (fun hn => ?_))
      rw [ht] at hn
      cases hn
  | follow | preStand | stand | poll | elect | append | pend | commit | ack | forward =>
    exact .inl hmem
  | vote | accept | stale | beat | skip | restore => exact .inl (hnew (by nofun) hmem)

end Core

namespace Ordered

variable (ho : Ordered F B h i a c)
include ho

/-- A node that stands for election goes by the configuration of all that it has committed. -/
theorem standing_path (hs : c.state=.stateCandidate) :
    F.succession.Path (F.succession.confs (c.raftLog.all.take c.raftLog.committed))
      c.prs.config := by
  have hnone := ho.placed.standing (.inl hs)
  rw [Succession.confs_split a,hnone,List.append_nil,List.take_take,
    Nat.min_eq_left ho.placed.committed]
  exact ho.placed.path

theorem electOk : ElectOk (fun _ => True) h c := by
  intro hs ht
  refine ⟨trivial,ho.core.node.wins_governed ho.hist ho.governed (StateType.role_candidate.mpr hs)
    (fun _ hv => hv) (ho.standing_path hs) ?_ ho.placed.trim⟩
  exact ProgressTracker.granted_quorum ht

theorem decideOk : DecideOk (fun _ => True) h c := by
  intro hs hlt ht
  refine ⟨trivial,fun T hT hl => ?_⟩
  exact ho.core.node.decides_governed ho.hist ho.governed (StateType.role_leader.mpr hs)
    ho.placed.path (ProgressTracker.committed_quorum (by omega)) (ho.placed.leads hs).1
    ho.placed.committed hlt ht (fun _ hv => hv) hT hl

/-- A step of the consensus machine that elects nobody and commits nothing. -/
theorem governed_calm {Q : (Nat → Prop) → Prop} (s : Sim B Q i h c h' c') (g : h.Grown i h')
    (hr : c.state=.stateCandidate → c'.state≠.stateLeader)
    (hcm : c.state=.stateLeader → c'.raftLog.committed=c.raftLog.committed) :
    h'.Governed F.succession B := by
  rcases s.act with ⟨rfl,-⟩ | hact
  · exact ho.governed
  · obtain ⟨hlead,hcomm⟩ := hact.calm
      (fun hs hl => hr (StateType.role_candidate.mp hs) (StateType.role_leader.mp hl))
      (fun hs => hcm (StateType.role_leader.mp hs))
    exact ho.governed.calm ho.hist g hlead hcomm

end Ordered

/-- Every move keeps a node in its place, and the history in order. -/
theorem Core.Move.carried (hS : ∀ m, S m → Given h i m ∧ m.Trimmed F h)
    (ho : Ordered F B h i a c) (hm : Move S c c') : ∃ h', Carried F B i a h c h' c' := by
  have hsim : ∃ h', Sim B (fun _ => True) i h c h' c' ∧ (h.Grown i h' →
      h'.Governed F.succession B) := by
    rcases hm.kinds with ⟨pr,hs,ht,hget,rfl⟩ | ⟨l,hs,ha,rfl⟩ | ⟨hr,hcm⟩
    · refine ⟨_,ho.core.sim_elect ho.electOk hs ht hget,fun _ => ?_⟩
      exact ho.governed.win ho.hist ho.core.node (StateType.role_candidate.mpr hs)
        (ho.electOk hs ht).2.1 (ho.standing_path hs) (ProgressTracker.granted_quorum ht)
        ho.placed.trim
    · refine ⟨_,ho.core.sim_commit ho.hist ho.decideOk hs ha,fun _ => ?_⟩
      obtain ⟨hlt,_,ht,_⟩ := ho.core.commit_spec ho.hist hs ha
      exact ho.governed.commit ho.hist ho.core.node (StateType.role_leader.mpr hs) hlt ht
        (fun _ hv => hv) ho.placed.path (ProgressTracker.committed_quorum (by omega))
        (ho.placed.leads hs).1 ho.placed.committed
    · obtain ⟨h',s⟩ := hm.sim (fun m hm => (hS m hm).1) ho.hist ho.core ho.electOk ho.decideOk
      exact ⟨h',s,fun g => ho.governed_calm s g hr hcm⟩
  obtain ⟨h',s,hgov⟩ := hsim
  obtain ⟨g,hh,hc⟩ := s.inv ho.hist ho.core
  have hcov := ho.core.committed_covers hc hh g hm.hardLe.committed
  have hp := hm.placed ho.placed ho.core ho.hist hS hcov
  refine ⟨h',s.shift g,hh,hgov g,hc,hp,?_⟩
  intro m hmem ht
  rcases hm.app_said hmem ht with hmem | ⟨hs,hterm,hcommit⟩
  · exact (ho.trimmed m hmem).grown (ho.core.msgs m hmem).1 g ht
  · rw [hterm,hcommit,← (hc.leader hs).2]
    exact hp.trim.take _

/-- A step that moves only the applied cursor, and not beyond what is applied. -/
theorem Ordered.setApplied (ho : Ordered F B h i a c) {l : RaftLog} {n : Nat}
    (hl : c.raftLog.appliedTo n=.ok l) (ha : l.applied≤a) :
    Carried F B i a h c h (c.setLog l) := by
  rcases RaftLog.appliedTo_spec hl with ⟨-,rfl⟩ | ⟨-,-,-,rfl⟩
  · exact .refl ho
  · have s : Sim B (fun _ => True) i h c h (c.setLog { c.raftLog with applied := n }) :=
      .of_log ho.core (.inl ⟨rfl,rfl⟩) rfl rfl rfl ho.core.tracks (fun _ => .inl)
    refine ⟨s.shift (.refl i h),ho.hist,ho.governed,(s.inv ho.hist ho.core).2.2,?_,ho.trimmed⟩
    exact { ho.placed with
      applied := ha
      formed := ho.placed.formed.alike ⟨rfl,fun _ => rfl⟩ .inl }

theorem Core.HostMove.applied_le (hm : HostMove S c c') :
    c.raftLog.applied≤c'.raftLog.applied := by
  cases hm with
  | move hm => exact hm.fixed.2.ge
  | applied hl =>
    rcases RaftLog.appliedTo_spec hl with ⟨-,rfl⟩ | ⟨-,hle,-,rfl⟩
    · exact le_rfl
    · exact hle
  | leave _ _ hl => exact (congrArg RaftLog.applied (RaftLog.append_spec hl)).ge

theorem Core.HostMove.carried (hS : ∀ m, S m → Given h i m ∧ m.Trimmed F h)
    (ho : Ordered F B h i a c) (hm : HostMove S c c') (ha : c'.raftLog.applied≤a) :
    ∃ h', Carried F B i a h c h' c' := by
  have hle := hm.hardLe.committed
  have happ := hm.applied_le
  cases hm with
  | move hm => exact hm.carried hS ho
  | applied hl => exact ⟨h,ho.setApplied hl ha⟩
  | @leave l pr hs hpend hl hget =>
    obtain ⟨h',s⟩ := ho.core.sim_append (Q := fun _ => True) ho.hist l.lastIndex hs hl hget
    obtain ⟨g,hh,hc⟩ := s.inv ho.hist ho.core
    have hcm : l.committed=c.raftLog.committed := (ho.core.append_all hl).2
    have hcov := ho.core.committed_covers hc hh g hle
    have hleads := ho.placed.leads_leave ho.core hs hpend hl
    refine ⟨h',s.shift g,hh,ho.governed_calm s g (fun hcand => ?_) (fun _ => hcm),hc,?_,?_⟩
    · cases hcand.symm.trans hs
    · exact {
        applied := ha
        committed := ho.placed.committed.trans hle
        path := by
          rw [(hcov.mono ho.placed.committed).2]
          exact ho.placed.path
        formed := ho.placed.formed.alike (.insert hget (maybeUpdate_learner _ _)) .inl
        trim := hleads.1.mono (ho.placed.committed.trans hle)
        standing := by
          rintro (hcand | hcand) <;> cases hcand.symm.trans hs
        leads := fun _ => hleads }
    · intro m hm
      exact (ho.trimmed m hm).grown (ho.core.msgs m hm).1 g

/-- What every single step of a node keeps, a sequence of steps keeps. -/
theorem Core.chain_carried {R : Core → Core → Prop} {P : Hist Entry → Core → Prop}
    (hR : ∀ {c c'}, R c c' → HostMove S c c') (hS : ∀ m, S m → Given h i m ∧ m.Trimmed F h)
    (hP : ∀ {h c h' c'}, (∀ m, S m → Given h i m) → Ordered F B h i a c →
      Carried F B i a h c h' c' → R c c' → P h c → P h' c')
    (ho : Ordered F B h i a c) (hc : P h c) (hm : Relation.ReflTransGen R c c')
    (ha : c'.raftLog.applied≤a) : ∃ h', Carried F B i a h c h' c' ∧ P h' c' := by
  induction hm with
  | refl => exact ⟨h,.refl ho,hc⟩
  | tail _ hm ih =>
    obtain ⟨h1,p,hc1⟩ := ih ((hR hm).applied_le.trans ha)
    have hS1 : ∀ m, S m → Given h1 i m ∧ m.Trimmed F h1 := fun m hm =>
      ⟨(hS m hm).1.mono p.grown,(hS m hm).2.grown (hS m hm).1.1 p.grown⟩
    obtain ⟨h2,p'⟩ := (hR hm).carried hS1 p.ordered ha
    exact ⟨h2,p.trans p',hP (fun m hm => (hS1 m hm).1) p.ordered p' hm hc1⟩

end

end RaftTesting
