import RaftTesting.Cluster.Ledger

namespace RaftTesting

open Consensus

namespace Core

/-- A leader in a joint configuration that it has to leave has not passed the index at which
Advance makes it do so. -/
def Armed (c : Core) : Prop :=
  c.state=.stateLeader → c.prs.config.autoLeave=true → c.raftLog.applied≤c.pendingConfIndex

section

variable [Raftpb] {S : Message → Prop} {c c' : Core}

/-- An election and an accepted change move the index behind what is applied. -/
theorem Move.armed (happ : c.raftLog.applied≤c.raftLog.lastIndex) (hm : Move S c c')
    (hc : c.Armed) : c'.Armed := by
  have hfol : c.state=.stateFollower → ∀ {P : Prop}, c.state=.stateLeader → P := by
    intro hs P hl
    cases hs.symm.trans hl
  cases hm with
  | send hs =>
    have hf := hs.frame
    unfold Armed
    rw [hf.state,hf.config,hf.raftLog,hf.pendingConfIndex]
    exact hc
  | follow | preStand | stand => exact fun hl => by cases hl
  | poll hs => exact fun hl => by rcases hs with hs | hs <;> cases hs.symm.trans hl
  | ack | vote => exact hc
  | elect => exact fun _ _ => happ
  | append hl hs ha =>
    intro _ hauto
    have hlog := congrArg RaftLog.applied (RaftLog.append_spec ha)
    exact hlog.trans_le ((hc hl hauto).trans (hs.le happ))
  | pend hl hs => exact fun _ hauto => (hc hl hauto).trans (hs.le happ)
  | commit hl ha =>
    intro _ hauto
    rcases RaftLog.maybeCommit_spec ha with ⟨h,-⟩ | ⟨-,-,-,hlog⟩
    · cases h
    · rw [RaftLog.commitTo_fst] at hlog
      have happlied := congrArg RaftLog.applied hlog
      exact happlied.trans_le (hc hl hauto)
  | accept _ _ _ hs | stale _ _ _ hs | beat _ _ _ hs | skip _ _ _ hs | forward _ _ _ hs
  | restore _ _ _ _ hs => exact hfol hs

/-- The index behind which a leader leaves only grows. -/
theorem HostMove.pending_le {k : Nat} (happ : c.raftLog.applied≤c.raftLog.lastIndex)
    (hlast : k≤c.raftLog.lastIndex) (hm : HostMove S c c')
    (hc : c.state=.stateLeader → k≤c.pendingConfIndex) :
    c'.state=.stateLeader → k≤c'.pendingConfIndex := by
  have hfol : c.state=.stateFollower → ∀ {P : Prop}, c.state=.stateLeader → P := by
    intro hs P hl
    cases hs.symm.trans hl
  cases hm with
  | move hm =>
    cases hm with
    | send hs =>
      rw [hs.frame.state,hs.frame.pendingConfIndex]
      exact hc
    | follow | preStand | stand => exact fun hl => by cases hl
    | poll | ack | vote | commit => exact hc
    | elect => exact fun _ => hlast
    | append hl hs => exact fun _ => (hc hl).trans (hs.le happ)
    | pend hl hs => exact fun _ => (hc hl).trans (hs.le happ)
    | accept _ _ _ hs | stale _ _ _ hs | beat _ _ _ hs | skip _ _ _ hs | forward _ _ _ hs
    | restore _ _ _ _ hs => exact hfol hs
  | applied => exact hc
  | leave hl _ ha =>
    intro _
    have hgrow := RaftLog.append_lastIndex (Raft.stampEntries_numbered _ _ _)
      (by simp [Raft.stampEntries]) ha
    rw [Raft.stampEntries_length] at hgrow
    change k≤RaftLog.lastIndex _
    omega

end

end Core

namespace Raft

variable {r r' : Raft}

/-- The leader writes the entry that leaves, and waits for it. -/
theorem autoLeave_spec (hw : r.raftLog.Whole) (h : r.autoLeave=.ok r') :
    r'.pendingConfIndex=r.raftLog.all.length+1 ∧ r'.raftLog.applied=r.raftLog.applied ∧
      r'.raftLog.all=r.raftLog.all++stampEntries r.term r.raftLog.all.length [autoLeaveEntry] := by
  obtain ⟨⟨r1,accepted⟩,happ,h⟩ := bind_eq_ok.mp h
  rcases appendEntry_spec happ with ⟨rfl,-⟩ | ⟨rfl,-,l,pr,changed,hl,-,hc⟩
  · cases h
  · cases h
    obtain ⟨k,rfl⟩ := maybeCommit_eq hc
    have hlast := hw.lastIndex_eq
    have hn := stampEntries_numbered r.term r.raftLog.lastIndex [autoLeaveEntry]
    obtain ⟨hwl,hall,-,-⟩ := hw.append hl hn hlast.le (fun _ => hlast)
    rw [hlast,List.take_length] at hall
    have happlied := congrArg RaftLog.applied (RaftLog.append_spec hl)
    refine ⟨?_,happlied,hall⟩
    change l.lastIndex=_
    rw [hwl.lastIndex_eq,hall,List.length_append]
    rfl

theorem advanceApplied_config {n : Nat} (h : r.advanceApplied n=.ok r') :
    r'.state=r.state ∧ r'.prs.config=r.prs.config := by
  unfold advanceApplied at h
  split at h
  · cases h
    exact ⟨rfl,rfl⟩
  obtain ⟨l,-,h⟩ := bind_eq_ok.mp h
  dsimp only at h
  split at h
  · obtain ⟨⟨r1,accepted⟩,happ,h⟩ := bind_eq_ok.mp h
    rcases appendEntry_spec happ with ⟨rfl,-⟩ | ⟨rfl,-,l,pr,changed,-,-,hc⟩
    · cases h
    · cases h
      obtain ⟨k,rfl⟩ := maybeCommit_eq hc
      exact ⟨rfl,rfl⟩
  · cases h
    exact ⟨rfl,rfl⟩

/-- A leader that has to leave a joint configuration does so when it has applied what it waits
for, and waits on otherwise. -/
theorem advanceApplied_leaves {n : Nat} (hw : r.raftLog.Whole) (hl : r.state=.stateLeader)
    (hauto : r.prs.config.autoLeave=true) (harmed : r.raftLog.applied≤r.pendingConfIndex)
    (hne : n≠0) (h : r.advanceApplied n=.ok r') : r'.raftLog.applied=n ∧
    (n<r.pendingConfIndex ∧ r'.pendingConfIndex=r.pendingConfIndex ∧
        r'.raftLog.all=r.raftLog.all ∨
      r.pendingConfIndex≤n ∧ r'.pendingConfIndex=r.raftLog.all.length+1 ∧
        r'.raftLog.all=
          r.raftLog.all++stampEntries r.term r.raftLog.all.length [autoLeaveEntry]) := by
  unfold advanceApplied at h
  rw [if_neg hne] at h
  obtain ⟨l,hlog,h⟩ := bind_eq_ok.mp h
  obtain rfl : l={ r.raftLog with applied := n } := by
    rcases RaftLog.appliedTo_spec hlog with ⟨hz,-⟩ | ⟨-,-,-,hl⟩
    · exact absurd hz hne
    · exact hl
  dsimp only at h
  split at h
  · rename_i hcond
    have hwl : (r.setLog { r.raftLog with applied := n }).raftLog.Whole := hw.congr rfl rfl
    obtain ⟨hpend,happ,hall⟩ := autoLeave_spec hwl h
    exact ⟨happ,.inr ⟨hcond.2.2.1,hpend,hall⟩⟩
  · rename_i hcond
    cases h
    exact ⟨rfl,.inl ⟨Nat.lt_of_not_le (fun hle => hcond ⟨hauto,harmed,hle,hl⟩),rfl,rfl⟩⟩

end Raft

section

variable [Raftpb] {F : Founding} {B : Base Entry} {h : Hist Entry} {i a : Nat} {H H' : Host}

theorem Ordered.reach {c : Core} (ho : Ordered F B h i a c) :
    c.raftLog.applied≤a ∧ a≤c.raftLog.lastIndex := by
  refine ⟨ho.placed.applied,ho.placed.committed.trans ?_⟩
  rw [ho.core.log.lastIndex_eq]
  exact ho.core.committed_le

/-- A change that is applied is one that the leader waits for. -/
theorem HostPlaced.armed_apply (hp : HostPlaced F B h i a H) (hh : HistInv B h)
    (hg : h.Governed F.succession B) (harmed : H.rn.raft.core.Armed) {e : Entry}
    {es : List Entry} (hap : H.toApply=e::es) (ha : H.applyEntry e=.ok H') :
    H'.rn.raft.core.Armed := by
  have hate := ha
  obtain ⟨cc,hcc,ha⟩ := bind_eq_ok.mp ha
  cases cc with
  | none =>
    cases ha
    exact harmed
  | some cc =>
    obtain ⟨hat,-,-⟩ := hp.due_head hap
    have hstart : H.rn.raft.core.state=.stateLeader →
        a+1≤H.rn.raft.core.pendingConfIndex := by
      intro hl
      by_contra hlt
      have hno := Succession.confs_drop_eq_nil.mp (hp.placed.leads hl).2.1 a e (by omega) hat
      rw [show F.succession.conf e=e.isConf from rfl,Raft.confChangeOf_some hcc] at hno
      cases hno
    obtain ⟨h',-,-,-,hp',hpend⟩ := hp.apply hh hg
      (P := fun _ c => c.state=.stateLeader → a+1≤c.pendingConfIndex)
      (fun ho _ hm hc => hm.pending_le (ho.reach.1.trans ho.reach.2) ho.reach.2 hc)
      (fun hc => hc) hstart hap hate
    exact fun hl _ => hp'.placed.applied.trans (hpend hl)

theorem HostPlaced.advance_leaves (hp : HostPlaced F B h i a H) (hh : HistInv B h)
    (hg : h.Governed F.succession B) (hl : H.rn.raft.state=.stateLeader)
    (hauto : H.rn.raft.prs.config.autoLeave=true) (harmed : H.rn.raft.core.Armed) {rd : Ready}
    {rn : RawNode} (hrd : H.pending=some rd) (hsv : H.saved=true) (hap : H.toApply=[])
    (hne : rd.appliedCursor≠0) (ha : H.rn.advance rd=.ok rn) :
    rn.raft.raftLog.applied<rn.raft.pendingConfIndex ∧
    (rn.raft.pendingConfIndex=H.rn.raft.pendingConfIndex ∧
        rn.raft.raftLog.all=H.rn.raft.raftLog.all ∨
      rn.raft.pendingConfIndex=H.rn.raft.raftLog.all.length+1 ∧
        rn.raft.raftLog.all=H.rn.raft.raftLog.all++Raft.stampEntries H.rn.raft.term
          H.rn.raft.raftLog.all.length [Raft.autoLeaveEntry]) := by
  obtain ⟨r,hr,ha⟩ := bind_eq_ok.mp ha
  cases ha
  obtain ⟨r1,h1,hr⟩ := bind_eq_ok.mp hr
  cases hr
  obtain ⟨happ,hcase⟩ := Raft.advanceApplied_leaves
    (r := H.rn.raft.reduceUncommittedSize rd.committedEntries) hp.hosted.core.log hl hauto
    (harmed hl hauto) hne h1
  have hlast : r1.raftLog.applied=a := by
    have hcur := hp.cursor rd hrd
    rw [hap,List.length_nil,Nat.add_zero] at hcur
    exact (Raft.advanceApplied_log h1).1.trans hcur
  have hmoves : Core.HostMoves (fun _ => False) H.rn.raft.core r1.core :=
    Raft.advanceApplied_moves (r := H.rn.raft.reduceUncommittedSize rd.committedEntries) h1
  obtain ⟨h',p,-⟩ := Core.chain_carried (S := fun _ => False) (P := fun _ _ => True) (fun hm => hm)
    (fun _ hm => hm.elim) (fun _ _ _ _ _ => trivial) (hp.ordered hh hg) trivial hmoves hlast.le
  obtain ⟨-,hall⟩ := hp.hosted.advance { H.rn with raft := r1.setLog (rd.stabilize r1.raftLog) }
    hrd hsv p.toShift p.ordered.core rfl
  have hstable : (rd.stabilize r1.raftLog).applied=r1.raftLog.applied := by rw [rd.stabilize_eq]
  change (rd.stabilize r1.raftLog).applied<r1.pendingConfIndex ∧
    (r1.pendingConfIndex=_ ∧ (rd.stabilize r1.raftLog).all=_ ∨
      r1.pendingConfIndex=_ ∧ (rd.stabilize r1.raftLog).all=_)
  rw [hstable,show (rd.stabilize r1.raftLog).all=r1.raftLog.all from hall]
  rcases hcase with ⟨hlt,hpend,hlog⟩ | ⟨-,hpend,hlog⟩
  · exact ⟨by rw [happ,hpend]; exact hlt,.inl ⟨hpend,hlog⟩⟩
  · refine ⟨?_,.inr ⟨hpend,hlog⟩⟩
    rw [hlast,hpend]
    exact Nat.lt_succ_of_le (hp.placed.committed.trans hp.hosted.core.committed_le)

theorem HostPlaced.armed (hp : HostPlaced F B h i a H) (hh : HistInv B h)
    (hg : h.Governed F.succession B) (harmed : H.rn.raft.core.Armed) {e : Event}
    {ms : List Message} (hgiven : ∀ m, e.message H.rn.raft.id=some m → Given h i m ∧ m.Trimmed F h)
    (hd : H.Does e H' ms) : H'.rn.raft.core.Armed := by
  have hchain : ∀ {S : Message → Prop} {r : Raft}, (∀ m, S m → Given h i m ∧ m.Trimmed F h) →
      Core.Moves S H.rn.raft.core r.core → r.core.Armed := by
    intro S r hS hmoves
    obtain ⟨-,-,hr⟩ := Core.chain_carried (S := S) (P := fun _ c => c.Armed) (fun hm => .move hm) hS
      (fun _ ho _ hm hc => hm.armed (ho.reach.1.trans ho.reach.2) hc) (hp.ordered hh hg) harmed
      hmoves (hmoves.fixed.2.trans_le hp.placed.applied)
    exact hr
  cases hd with
  | stay => exact harmed
  | @step _ m r err hm hr =>
    exact hchain (S := (·=m)) (fun n hn => hn ▸ hgiven m hm)
      (Raft.step_moves (fun _ => rfl) (hgiven m hm).1.2.1 hr)
  | tick hr => exact hchain (S := fun _ => False) (fun _ hm => hm.elim) (Raft.tick_moves hr)
  | ready _ hr =>
    obtain ⟨rd,-,hr⟩ := bind_eq_ok.mp hr
    cases hr
    exact harmed
  | save => exact harmed
  | apply hap he =>
    have harmed' := hp.armed_apply hh hg harmed hap he
    exact harmed'
  | @advance rd rn hrd hsv hap hr =>
    intro hl hauto
    obtain ⟨r,hadv,hrn⟩ := bind_eq_ok.mp hr
    cases hrn
    obtain ⟨r1,h1,hstable⟩ := bind_eq_ok.mp hadv
    cases hstable
    obtain ⟨hstate,hcfg⟩ := Raft.advanceApplied_config h1
    have hl0 : H.rn.raft.state=.stateLeader := hstate.symm.trans hl
    have hauto0 : H.rn.raft.prs.config.autoLeave=true := by
      rw [← hauto]
      exact congrArg TrackerConfig.autoLeave hcfg.symm
    by_cases hne : rd.appliedCursor=0
    · unfold Raft.advanceApplied at h1
      rw [if_pos hne] at h1
      cases h1
      change (rd.stabilize _).applied≤_
      rw [rd.stabilize_eq]
      exact harmed hl0 hauto0
    · exact (hp.advance_leaves hh hg hl0 hauto0 harmed hrd hsv hap hne hr).1.le

/-- The leaders of the cluster wait for what makes them leave. -/
theorem Realm.armed {c c' : Cluster} {e : Event} (hr : Realm F B h c)
    (hc : ∀ i H, c.hosts.get? i=some H → H.rn.raft.core.Armed) (ha : c.act i e=.ok c') :
    ∀ i H, c'.hosts.get? i=some H → H.rn.raft.core.Armed := by
  rcases Cluster.act_cases ha with rfl | ⟨H,H',ms,hH,hen,hact,rfl⟩
  · exact hc
  obtain ⟨a,hp⟩ := hr.hosts i H hH
  have harmed := hp.armed hr.hist hr.governed (hc i H hH) (fun m hm => hr.given hen hm)
    (Host.act_does hact)
  intro j J hJ
  rw [SortedMap.get?_insert] at hJ
  split_ifs at hJ
  · cases hJ
    exact harmed
  · exact hc j J hJ

namespace Cluster

variable {allowed : Cluster → Nat → Event → Bool} {c0 c : Cluster} {es : List (Nat × Event)}

theorem run_armed (hr : Realm F B h c0)
    (hc : ∀ i H, c0.hosts.get? i=some H → H.rn.raft.core.Armed) (he : c0.run allowed es=some c) :
    (∃ h', Realm F B h' c) ∧ ∀ i H, c.hosts.get? i=some H → H.rn.raft.core.Armed := by
  induction es generalizing c0 h with
  | nil =>
    cases he
    exact ⟨⟨h,hr⟩,hc⟩
  | cons e es ih =>
    obtain ⟨i,e⟩ := e
    simp only [run] at he
    split_ifs at he
    split at he
    · cases he
    · rename_i c1 hact
      obtain ⟨h1,-,hr1⟩ := hr.step hact
      exact ih hr1 (hr.armed hc hact) he

/-- A leader does not stay behind in a joint configuration that it has to leave by itself.
Whatever else it does, it waits for an index that it has not passed, and when it confirms a
Ready that reaches it, it writes the entry that leaves and waits for that one. -/
theorem run_leaves (hf : c0.Founded F B) (he : c0.run allowed es=some c)
    (hH : c.hosts.get? i=some H) (hl : H.rn.raft.state=.stateLeader)
    (hauto : H.rn.raft.prs.config.autoLeave=true) :
    H.rn.raft.raftLog.applied≤H.rn.raft.pendingConfIndex ∧
    ∀ rd rn, H.pending=some rd → H.saved=true → H.toApply=[] → rd.appliedCursor≠0 →
      H.rn.advance rd=.ok rn → rn.raft.raftLog.applied<rn.raft.pendingConfIndex ∧
      (rn.raft.pendingConfIndex=H.rn.raft.pendingConfIndex ∧
          rn.raft.raftLog.all=H.rn.raft.raftLog.all ∨
        rn.raft.pendingConfIndex=H.rn.raft.raftLog.all.length+1 ∧
          rn.raft.raftLog.all=H.rn.raft.raftLog.all++Raft.stampEntries H.rn.raft.term
            H.rn.raft.raftLog.all.length [Raft.autoLeaveEntry]) := by
  have hstart : ∀ i H, c0.hosts.get? i=some H → H.rn.raft.core.Armed := by
    intro i H hH hl
    cases (hf.hosts i H hH).fresh.state.symm.trans hl
  obtain ⟨⟨h,hr⟩,harmed⟩ := run_armed hf.realm hstart he
  obtain ⟨a,hp⟩ := hr.hosts i H hH
  refine ⟨harmed i H hH hl hauto,fun rd rn hrd hsv hap hne ha => ?_⟩
  exact hp.advance_leaves hr.hist hr.governed hl hauto (harmed i H hH) hrd hsv hap hne ha

end Cluster

end

namespace Cluster

section

local instance leaveWire : Raftpb := Wire.joint

def lone : Cluster := start Wire.marshalConfChange [⟨1,[]⟩] nodeConfig (fun _ => [])

def addSecond : Entry :=
  { (default : Entry) with
    type := .entryConfChangeV2
    data := Wire.marshalConfChangeV2 { transition := .jointImplicit, changes := [⟨.addNode,2⟩] } }

/-- The only node is elected, and adds a second one by way of a joint configuration. -/
def entering : List (Nat × Event) :=
  [(1,.ready),(1,.save),(1,.apply),(1,.advance),(1,.call .campaign),(1,.call (.propose [addSecond])),
    (1,.ready),(1,.save),(1,.apply),(1,.apply)]

def entered : Cluster := (lone.run free entering).getD lone

def firstEntered : Host := (entered.hosts.get? 1).get (by decide +kernel)

/-- The Ready with the change. -/
def entry : Ready := firstEntered.pending.get (by decide +kernel)

theorem run_leaves_entered : firstEntered.rn.raft.prs.config.autoLeave=true ∧
    firstEntered.rn.raft.pendingConfIndex=entry.appliedCursor ∧
    ∃ rn, firstEntered.rn.advance entry=.ok rn ∧
      rn.raft.raftLog.applied<rn.raft.pendingConfIndex := by
  have hf : lone.Founded ⟨votersOnly [1],by decide⟩
      (RawNode.bootstrapBase Wire.marshalConfChange [⟨1,[]⟩]) :=
    start_founded (fun _ => rfl) (fun _ => MemoryStorage.newMemoryStorage_whole) (by decide +kernel)
  have he : lone.run free entering=some entered :=
    (Option.getD_of_ne_none (Option.isSome_iff_ne_none.mp (by decide +kernel)) _).symm
  have hH : entered.hosts.get? 1=some firstEntered := (Option.some_get _).symm
  have hauto : firstEntered.rn.raft.prs.config.autoLeave=true := by decide +kernel
  have hok : (firstEntered.rn.advance entry).isOk=true := by decide +kernel
  obtain ⟨rn,hrn⟩ : ∃ rn, firstEntered.rn.advance entry=.ok rn := by
    cases h : firstEntered.rn.advance entry with
    | ok rn => exact ⟨rn,rfl⟩
    | error p =>
      rw [h] at hok
      cases hok
  have hleaves := (run_leaves hf he hH (by decide +kernel) hauto).2 entry rn
    (Option.some_get _).symm (by decide +kernel) (by decide +kernel) (by decide +kernel) hrn
  exact ⟨hauto,by decide +kernel,rn,hrn,hleaves.1⟩

end

end Cluster

end RaftTesting
