import RaftTesting.ConfChange.RoundTrip
import RaftTesting.Log.Pieces
import RaftTesting.Protocol.Step
import RaftTesting.Protocol.Wire

namespace RaftTesting

theorem RaftLog.findConflict_eq_zero {l : RaftLog} {p : Nat} {ents : List Entry}
    (hn : Numbered p ents) :
    l.findConflict ents=0 ↔ ∀ e ∈ ents, l.matchTerm e.index e.term=true := by
  induction ents generalizing p with
  | nil => simp [RaftLog.findConflict]
  | cons e es ih =>
    have hi : e.index=p+1 := hn.head
    unfold RaftLog.findConflict
    rw [List.forall_mem_cons]
    split_ifs with hm
    · rw [ih hn.tail]
      exact ⟨fun h => ⟨hm,h⟩,fun h => h.2⟩
    · exact iff_of_false (by omega) (fun h => hm h.1)

/-- After maybeAppend the log ends with the entries, or it is as it was because it has the
terms that they claim. -/
theorem RaftLog.maybeAppend_lastIndex {l l' : RaftLog} {index logTerm committed last : Nat}
    {ents : List Entry} (hn : Numbered index ents)
    (h : l.maybeAppend index logTerm committed ents=.ok (l',some last)) :
    last=index+ents.length ∧
      l'.lastIndex=if ∀ e ∈ ents, l.matchTerm e.index e.term=true then l.lastIndex else last := by
  obtain ⟨-,hlast,l1,h1,rfl⟩ := maybeAppend_spec h
  have hsame : ∀ n, (l1.commitTo n).1.lastIndex=l1.lastIndex := by
    intro n
    rw [commitTo_fst]
    rfl
  refine ⟨hlast,?_⟩
  rw [hsame]
  rcases l.findConflict_cases hn with hz | ⟨j,hj,hc⟩
  · rw [hz] at h1
    cases h1
    rw [if_pos ((findConflict_eq_zero hn).mp hz)]
  · have hdrop : usub (index+j+1) (index+1)=j := by
      rw [usub_of_le (by omega)]
      omega
    have hne : ents.drop j≠[] := by
      intro hnil
      rw [List.drop_eq_nil_iff] at hnil
      omega
    unfold appendFrom at h1
    rw [hc,if_neg (by omega)] at h1
    split at h1
    · cases h1
    rw [hdrop,if_neg (by omega)] at h1
    rw [append_lastIndex (hn.drop j) hne h1,List.length_drop,
      if_neg (fun hall => by rw [(findConflict_eq_zero hn).mpr hall] at hc; omega)]
    omega

namespace Raft

variable {r r' : Raft} {m a : Message}

/-- A MsgApp that claims the term 0 for every position past the end of the log matches the
log there, because the log answers 0 for them. Otherwise the acknowledged index is one of
the log. -/
theorem handleAppendEntries_acks (hn : Numbered m.index m.entries)
    (h : r.handleAppendEntries m=.ok r') (ha : r'.msgs=r.msgs++[a]) (hrej : a.reject=false) :
    a.index≤r'.raftLog.lastIndex ↔
      if m.index<r.raftLog.committed then r.raftLog.committed≤r.raftLog.lastIndex
      else r.raftLog.lastIndex < m.index+m.entries.length →
        ∃ e ∈ m.entries, r.raftLog.matchTerm e.index e.term=false := by
  have hone : ∀ {x y : Message}, r.msgs++[x]=r.msgs++[y] → x=y := fun h => by simpa using h
  unfold handleAppendEntries at h
  split_ifs with hold
  · rw [if_pos hold] at h
    cases h
    rw [← hone ha]
    exact Iff.rfl
  · rw [if_neg hold] at h
    obtain ⟨⟨l,res⟩,hl,h⟩ := bind_eq_ok.mp h
    cases res with
    | none =>
      -- a rejection
      change (r.setLog l).rejectAppend m=.ok r' at h
      unfold rejectAppend at h
      dsimp only at h
      split at h
      · cases h
      · cases h
        rw [← hone ha] at hrej
        cases hrej
    | some last =>
      obtain ⟨rfl,hlast⟩ := RaftLog.maybeAppend_lastIndex hn hl
      cases h
      rw [← hone ha]
      change m.index+m.entries.length≤l.lastIndex ↔ _
      rw [hlast]
      split_ifs with hall
      · refine ⟨fun hle hlt => absurd hle (Nat.not_le.mpr hlt),fun hex => ?_⟩
        by_contra hlt
        obtain ⟨e,he,hf⟩ := hex (Nat.not_le.mp hlt)
        rw [hall e he] at hf
        cases hf
      · refine iff_of_true le_rfl (fun _ => ?_)
        simpa using hall

/-- A node with an empty log. -/
def newcomer : Raft := .blank {
  id := 2
  electionTick := 10
  heartbeatTick := 1
  storage := .newMemoryStorage
  maxInflightMsgs := 256 } []

/-- A MsgApp that follows on a position which the log does not have. -/
def unheld : Message := { type := .msgApp, toId := 2, fromId := 1, term := 1, index := 5 }

/-- An append with index 5 and term 0 is acknowledged by an empty log. -/
theorem handleAppendEntries_unheld : ∃ r', newcomer.handleAppendEntries unheld=.ok r' ∧
    r'.msgs=newcomer.msgs++[{ type := .msgAppResp, toId := 1, fromId := 2, index := 5 }] ∧
    r'.raftLog.lastIndex=0 := ⟨_,rfl,rfl,rfl⟩

def firstAppend : Message :=
  { type := .msgApp, toId := 2, fromId := 1, term := 1, entries := [⟨1,1,.entryNormal,[]⟩] }

theorem handleAppendEntries_acks_first : ∃ r', newcomer.handleAppendEntries firstAppend=.ok r' ∧
    r'.msgs=newcomer.msgs++[{ type := .msgAppResp, toId := 1, fromId := 2, index := 1 }] ∧
    1≤r'.raftLog.lastIndex := by
  have hn : Numbered firstAppend.index firstAppend.entries := by decide
  exact ⟨_,rfl,rfl,(handleAppendEntries_acks (r := newcomer) hn rfl rfl rfl).mpr (by decide)⟩

end Raft

/-- The log has an entry, or its dummy, with this index and term. -/
def RaftLog.holds (l : RaftLog) (i t : Nat) : Prop :=
  l.firstIndex ≤ i+1 ∧ i≤l.lastIndex ∧ l.term i=.ok t

theorem RaftLog.term_past {l : RaftLog} {i : Nat} (h : l.lastIndex < i) : l.term i=.ok 0 :=
  if_pos (.inr h)

theorem RaftLog.matchTerm_iff {l : RaftLog} {i t : Nat} : l.matchTerm i t=true ↔ l.term i=.ok t := by
  unfold matchTerm
  cases l.term i with
  | error e => simp
  | ok t' => simp

theorem RaftLog.restore_reads (l : RaftLog) (s : Snapshot) :
    (l.restore s).firstIndex=s.index+1 ∧ (l.restore s).lastIndex=s.index ∧
      (l.restore s).term s.index=.ok s.term := by
  refine ⟨rfl,rfl,?_⟩
  have hat : (l.restore s).unstable.maybeTerm s.index=some s.term := by
    unfold Unstable.maybeTerm
    change (if s.index<s.index+1 then if s.index=s.index then some s.term else none else _)=_
    rw [if_pos (Nat.lt_succ_self _),if_pos rfl]
  unfold term
  rw [hat]
  exact if_neg (not_or.mpr ⟨lt_irrefl s.index,lt_irrefl s.index⟩)

/-- The sets of a ConfState that a node is looked for in. -/
def ConfState.includes (cs : ConfState) (id : Nat) : Bool :=
  (cs.voters.contains id || cs.learners.contains id) || cs.votersOutgoing.contains id

namespace Raft

/-- What handling a snapshot is to do: nothing if it is old or not for this node, commit what
the log has already, and otherwise start over from it. Only what is in the log is
acknowledged. -/
structure Installed (r : Raft) (s : Snapshot) (r' : Raft) : Prop where
  committed : r.raftLog.committed≤r'.raftLog.committed
  ignored : s.index≤r.raftLog.committed ∨ s.confState.includes r.id=false →
    r'.raftLog=r.raftLog ∧ r'.prs=r.prs ∧ r'.isLearner=r.isLearner
  forwarded : r.raftLog.committed<s.index → s.confState.includes r.id=true →
    r.raftLog.holds s.index s.term → r'.raftLog={ r.raftLog with committed := s.index }
  restored : r.raftLog.committed<s.index → s.confState.includes r.id=true →
    ¬r.raftLog.holds s.index s.term →
    r'.raftLog.unstable.entries=[] ∧ r'.raftLog.firstIndex=s.index+1 ∧
      r'.raftLog.lastIndex=s.index ∧ r'.raftLog.committed=s.index ∧
      r'.raftLog.term s.index=.ok s.term ∧ s.confState.SameIds r'.prs.confState ∧
      r'.isLearner=s.confState.learners.contains r.id
  answer : ∃ a, r'.msgs=r.msgs++[a] ∧ a.type=.msgAppResp ∧ a.reject=false ∧
    a.index≤r'.raftLog.lastIndex

section

variable [Raftpb] {r r' : Raft} {m : Message} {s : Snapshot} {p : ProgressTracker}

/-- The node that is in a reached configuration has its progress after the configuration has
been restored, and knows whether it is a learner. -/
theorem restoreSnapshot_reached (hp : Changer.Reached p) (hfol : r.state=.stateFollower)
    (hcs : s.confState=p.confState) (hin : s.confState.includes r.id=true) :
    ∃ r', r.restoreSnapshot s=.ok r' ∧ r'.raftLog=r.raftLog.restore s ∧ r'.msgs=r.msgs ∧
      s.confState.SameIds r'.prs.confState ∧
      r'.isLearner=s.confState.learners.contains r.id := by
  have hrep := (Changer.reached_represented hp).1
  obtain ⟨t,ht,hcfg,htracked⟩ := restoreConfig_reached hp
    (r := { r.setLog (r.raftLog.restore s) with prs := .makeProgressTracker r.prs.maxInflight })
    rfl hfol
  -- the node is tracked by the configuration, as a learner or not
  obtain ⟨q,hq⟩ : ∃ q, p.progress.get? r.id=some q := by
    have hmem : r.id ∈ p.progress.keys := by
      refine (hrep.keys r.id).mpr ?_
      rw [hcs] at hin
      unfold ConfState.includes ProgressTracker.confState at hin
      simp only [Bool.or_eq_true,List.contains_iff_mem,MajorityConfig.mem_slice] at hin
      tauto
    exact Option.isSome_iff_exists.mp ((SortedMap.mem_keys _ _).mp hmem)
  have hmark : q.isLearner=MajorityConfig.has p.config.learners r.id := hrep.marked r.id q hq
  have hlearn : (t.prs.get? r.id).map (·.isLearner)=some q.isLearner := by
    rw [htracked r.id,hq]
    rfl
  obtain ⟨pr,hpr,-⟩ := Option.map_eq_some_iff.mp hlearn
  rw [← hcs] at ht
  have hget : (installConfig { r.setLog (r.raftLog.restore s) with
      prs := .makeProgressTracker r.prs.maxInflight } t).prs.progress.get?
      (installConfig { r.setLog (r.raftLog.restore s) with
        prs := .makeProgressTracker r.prs.maxInflight } t).id=some pr := hpr
  refine ⟨Raft.setProgress (installConfig { r.setLog (r.raftLog.restore s) with
      prs := .makeProgressTracker r.prs.maxInflight } t) r.id (pr.maybeUpdate (usub pr.next 1)).1,
    bind_eq_ok.mpr ⟨_,ht,?_⟩,rfl,rfl,?_,?_⟩
  · rw [hget]
    rfl
  all_goals rw [hcs]
  · have hsame : ({ r.prs with config := t.cfg, progress := t.prs } : ProgressTracker).confState=
        p.confState := by
      unfold ProgressTracker.confState
      rw [hcfg]
    exact Eq.mpr (congrArg p.confState.SameIds hsame) (.refl _)
  · change ((t.prs.get? r.id).map (·.isLearner)).getD false=_
    rw [hlearn,Option.getD_some,hmark,Bool.eq_iff_iff]
    simp [ProgressTracker.confState]

theorem restore_old (h : s.index≤r.raftLog.committed) : r.restore s=.ok (r,false) := if_pos h

theorem restore_notFound (hfol : r.state=.stateFollower) (hin : s.confState.includes r.id=false) :
    r.restore s=.ok (r,false) := by
  unfold ConfState.includes at hin
  unfold restore
  dsimp only
  rw [if_neg (not_not.mpr hfol),hin]
  exact ite_self _

/-- The exits of restore for a snapshot that is newer than the commit index. -/
theorem restore_found (hfol : r.state=.stateFollower) (hlt : r.raftLog.committed<s.index)
    (hin : s.confState.includes r.id=true) : r.restore s=
      if r.raftLog.matchTerm s.index s.term then
        .ok (r.setLog (r.raftLog.commitTo s.index).1,false)
      else (do
        let r ← r.restoreSnapshot s
        .ok (r,true)) := by
  unfold ConfState.includes at hin
  unfold restore
  dsimp only
  rw [if_neg (Nat.not_le.mpr hlt),if_neg (not_not.mpr hfol),hin]
  rfl

theorem handleSnapshot_ignored (hhigh : r.raftLog.committed≤r.raftLog.lastIndex)
    (hold : m.snapshot.index≤r.raftLog.committed ∨ m.snapshot.confState.includes r.id=false)
    (h : r.restore m.snapshot=.ok (r,false)) :
    ∃ r', r.handleSnapshot m=.ok r' ∧ r.Installed m.snapshot r' := by
  have hnot : r.raftLog.committed < m.snapshot.index →
      m.snapshot.confState.includes r.id≠true := by
    intro hlt hin
    rw [hin] at hold
    exact absurd (hold.resolve_right Bool.noConfusion) (Nat.not_le.mpr hlt)
  exact ⟨_,bind_eq_ok.mpr ⟨_,h,rfl⟩,le_rfl,fun _ => ⟨rfl,rfl,rfl⟩,
    fun hlt hin => absurd hin (hnot hlt),fun hlt hin => absurd hin (hnot hlt),
    ⟨_,rfl,rfl,rfl,hhigh⟩⟩

section

variable (hlt : r.raftLog.committed < m.snapshot.index)
  (hin : m.snapshot.confState.includes r.id=true)
include hlt hin

omit [Raftpb] in
theorem not_ignored : ¬(m.snapshot.index≤r.raftLog.committed ∨
    m.snapshot.confState.includes r.id=false) := by
  rintro (hle | hout)
  · omega
  · rw [hin] at hout
    cases hout

theorem handleSnapshot_forwarded (hfol : r.state=.stateFollower)
    (hholds : r.raftLog.holds m.snapshot.index m.snapshot.term) :
    ∃ r', r.handleSnapshot m=.ok r' ∧ r.Installed m.snapshot r' := by
  have hrestore := restore_found hfol hlt hin
  rw [if_pos (RaftLog.matchTerm_iff.mpr hholds.2.2)] at hrestore
  have hcommit : (r.raftLog.commitTo m.snapshot.index).1=
      { r.raftLog with committed := m.snapshot.index } := by
    rw [RaftLog.commitTo_fst,if_pos ⟨hlt,hholds.2.1⟩]
  rw [hcommit] at hrestore
  exact ⟨_,bind_eq_ok.mpr ⟨_,hrestore,rfl⟩,hlt.le,fun hor => absurd hor (not_ignored hlt hin),
    fun _ _ _ => rfl,fun _ _ hnot => absurd hholds hnot,⟨_,rfl,rfl,rfl,hholds.2.1⟩⟩

/-- commitTo refuses the index of the snapshot, and nothing is restored. -/
theorem handleSnapshot_refused (hfol : r.state=.stateFollower) (hz : m.snapshot.term=0)
    (hpast : r.raftLog.lastIndex < m.snapshot.index) :
    ∃ r', r.handleSnapshot m=.ok r' ∧ ¬r.Installed m.snapshot r' := by
  have hrestore := restore_found hfol hlt hin
  have hsame : (r.raftLog.commitTo m.snapshot.index).1=r.raftLog := by
    rw [RaftLog.commitTo_fst,if_neg (fun hand => absurd hand.2 (Nat.not_le.mpr hpast))]
  rw [if_pos (RaftLog.matchTerm_iff.mpr (hz ▸ RaftLog.term_past hpast)),hsame] at hrestore
  refine ⟨_,bind_eq_ok.mpr ⟨_,hrestore,rfl⟩,fun hi => ?_⟩
  have hlast : r.raftLog.lastIndex=m.snapshot.index :=
    (hi.restored hlt hin (fun hh => absurd hh.2.1 (Nat.not_le.mpr hpast))).2.2.1
  omega

theorem handleSnapshot_restored (hp : Changer.Reached p) (hfol : r.state=.stateFollower)
    (hcs : m.snapshot.confState=p.confState)
    (hm : r.raftLog.matchTerm m.snapshot.index m.snapshot.term≠true) :
    ∃ r', r.handleSnapshot m=.ok r' ∧ r.Installed m.snapshot r' := by
  have hrestore := restore_found hfol hlt hin
  rw [if_neg hm] at hrestore
  obtain ⟨r1,h1,hlog,hmsgs,hequiv,hlearner⟩ := restoreSnapshot_reached hp hfol hcs hin
  obtain ⟨hfirst,hlast,hterm⟩ := r.raftLog.restore_reads m.snapshot
  rw [h1] at hrestore
  rw [← hlog] at hfirst hlast hterm
  have hcommitted : r1.raftLog.committed=m.snapshot.index := by rw [hlog]; rfl
  refine ⟨_,bind_eq_ok.mpr ⟨_,hrestore,rfl⟩,?_,fun hor => absurd hor (not_ignored hlt hin),
    fun _ _ hh => absurd (RaftLog.matchTerm_iff.mpr hh.2.2) hm,fun _ _ _ => ?_,
    ⟨_,congrArg (·++[_]) hmsgs,rfl,rfl,le_rfl⟩⟩
  · exact hlt.le.trans_eq hcommitted.symm
  · have hnil : r1.raftLog.unstable.entries=[] := by rw [hlog]; rfl
    exact ⟨hnil,hfirst,hlast,hcommitted,hterm,hequiv,hlearner⟩

end

end

section

local instance followerWire : Raftpb := Wire.small

/-- A snapshot for the nodes 1 and 2. -/
def snapshotOf (index term : Nat) : Message where
  type := .msgSnap
  toId := 2
  fromId := 1
  term := 1
  snapshot := { confState := { voters := [1,2] }, index := index, term := term }

theorem reached_pair : ∃ p, Changer.Reached p ∧ p.confState={ voters := [1,2] } := by
  have hone : Changer.Reached _ :=
    @Changer.Reached.perform _ 1 (.simple [⟨.addNode,1⟩]) _ (.empty 256) rfl
  have htwo : Changer.Reached _ := @Changer.Reached.perform _ 2 (.simple [⟨.addNode,2⟩]) _ hone rfl
  exact ⟨_,htwo,by decide⟩

end

end Raft

end RaftTesting
