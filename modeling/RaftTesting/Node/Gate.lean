import RaftTesting.Node.Accepted
import RaftTesting.Node.Contract

namespace RaftTesting

namespace Raft

/-- What may become of an entry that is proposed to a node which knows of a leader. -/
inductive Fate (r : Raft) (e : Entry) : Raft → Option StepErr → Prop
  | removed (hs : r.state=.stateLeader) (h : r.prs.progress.get? r.id=none) :
      Fate r e r (some .errProposalDropped)
  | transferring (hs : r.state=.stateLeader) (h : r.leadTransferee≠noNode) :
      Fate r e r (some .errProposalDropped)
  | full (hs : r.state=.stateLeader) (h : r.Full [e]) : Fate r e r (some .errProposalDropped)
  | appended {r' : Raft} {l : RaftLog} (hs : r.state=.stateLeader)
      (h : r.raftLog.append [{ e with term := r.term, index := r.raftLog.lastIndex+1 }]=.ok l)
      (hl : r'.raftLog={ l with committed := r'.raftLog.committed }) : Fate r e r' none
  | refused (hs : r.state=.stateFollower) (h : r.disableProposalForwarding=true) :
      Fate r e r (some .errProposalDropped)
  | forwarded (hs : r.state=.stateFollower) (h : r.disableProposalForwarding=false) :
      Fate r e { r with msgs := r.msgs++[{
        type := .msgProp, toId := r.lead, fromId := r.id, entries := [e] }] } none

section

variable [Raftpb] {r r' : Raft} {e : Entry} {m : Message} {err : Option StepErr}

theorem leaderProp_fate (hs : r.state=.stateLeader) (he : confChangeOf e=.ok none)
    (hm : m.entries=[e]) (h : r.leaderProp m=.ok (r',err)) : r.Fate e r' err := by
  unfold leaderProp at h
  rw [hm,if_neg (by simp)] at h
  split at h
  · rename_i hnone
    cases h
    exact .removed hs (Option.isNone_iff_eq_none.mp hnone)
  split at h
  · rename_i htransfer
    cases h
    exact .transferring hs htransfer
  obtain ⟨⟨r1,es⟩,hscr,hrest⟩ := bind_eq_ok.mp h
  obtain ⟨⟨r2,accepted⟩,happ,hsend⟩ := bind_eq_ok.mp hrest
  clear h hrest
  -- a normal entry passes the screening
  obtain ⟨rfl,rfl⟩ : r1=r ∧ es=[e] := by
    obtain ⟨⟨r3,e'⟩,h3,hscr⟩ := bind_eq_ok.mp hscr
    obtain ⟨⟨r4,es'⟩,h4,hscr⟩ := bind_eq_ok.mp hscr
    unfold screenEntry at h3
    rw [he] at h3
    cases h3
    cases h4
    cases hscr
    exact ⟨rfl,rfl⟩
  rcases appendEntry_spec happ with ⟨rfl,rfl,hfull⟩ | ⟨rfl,-,l,pr,changed,hl,-,hc⟩
  · cases hsend
    exact .full hs hfull
  · obtain ⟨r3,hb,hsent⟩ := bind_eq_ok.mp hsend
    cases hsent
    have hs2 : r2.state=.stateLeader := by
      rw [(appendEntry_same happ).2]
      exact hs
    have hlog : r'.raftLog=r2.raftLog :=
      (bcastAppend_sent (S := fun _ => False) hs2 hb).sends.frame.raftLog
    obtain ⟨k,rfl⟩ := maybeCommit_eq hc
    refine .appended hs hl ?_
    rw [hlog]
    rfl

theorem step_fate (ha : r.Aware) (hlead : r.lead≠noNode) (he : confChangeOf e=.ok none)
    (h : r.step { type := .msgProp, fromId := r.id, entries := [e] }=.ok (r',err)) :
    r.Fate e r' err := by
  have h : r.stepState { type := .msgProp, fromId := r.id, entries := [e] }=.ok (r',err) := h
  unfold stepState at h
  split at h
  · rename_i hs
    unfold stepFollower at h
    dsimp only at h
    rw [if_neg hlead] at h
    split at h
    · rename_i hoff
      cases h
      exact .refused hs hoff
    · rename_i hoff
      obtain ⟨r1,h1,h⟩ := bind_eq_ok.mp h
      cases h
      obtain rfl := (send_eq_ok h1).1
      have hstamp : r.stamp { type := .msgProp, toId := r.lead, fromId := r.id, entries := [e] }=
          { type := .msgProp, toId := r.lead, fromId := r.id, entries := [e] } := by
        unfold stamp
        dsimp only
        split_ifs <;> first | rfl | simp_all
      rw [hstamp]
      exact .forwarded hs (Bool.eq_false_of_not_eq_true hoff)
  · rename_i hs
    exact absurd (ha.candidate (.inl hs)) hlead
  · rename_i hs
    exact absurd (ha.candidate (.inr hs)) hlead
  · rename_i hs
    unfold stepLeader at h
    exact leaderProp_fate hs he rfl h

end

end Raft

namespace Node

/-- Proposals are let in only while a leader is known. -/
structure Gated (n : Node) : Prop where
  aware : n.rn.raft.Aware
  propc : n.propc=true → n.lead≠noNode

section

variable [Raftpb] {n n' : Node}

theorem populate_same (h : n.populate=.ok n') :
    n'.rn=n.rn ∧ n'.propc=n.propc ∧ n'.lead=n.lead := by
  unfold populate at h
  split at h
  · cases h
    exact ⟨rfl,rfl,rfl⟩
  split at h
  · obtain ⟨rd,-,h⟩ := bind_eq_ok.mp h
    cases h
    exact ⟨rfl,rfl,rfl⟩
  · cases h
    exact ⟨rfl,rfl,rfl⟩

theorem Gated.arm (hn : n.Gated) (h : n.arm=.ok n') :
    n'.Gated ∧ n'.rn=n.rn ∧ n'.lead=n.rn.raft.lead := by
  obtain ⟨n1,h1,h⟩ := bind_eq_ok.mp h
  obtain ⟨hrn,hpropc,hlead⟩ := populate_same h1
  have haware : n1.rn.raft.Aware := by
    rw [hrn]
    exact hn.aware
  split at h <;> cases h
  · exact ⟨⟨haware,fun h => of_decide_eq_true h⟩,hrn,by rw [← hrn]⟩
  · rename_i hsame
    refine ⟨⟨haware,fun h => ?_⟩,hrn,(not_not.mp hsame).trans (by rw [hrn])⟩
    rw [hlead]
    exact hn.propc (hpropc ▸ h)

theorem Gated.moves {rn : RawNode} {p adv : Bool} (rd : Ready) (hn : n.Gated)
    (h : Raft.Effect Message.Stamped n.rn.raft rn.raft) (hp : p=true → n.propc=true) :
    Gated { n with rn := rn, propc := p, rd := rd, advancec := adv } :=
  ⟨((h.touches (fun _ h => h)).aware hn.aware).1,fun h => hn.propc (hp h)⟩

theorem Gated.select {c : Case} {a : Answer} {M : Message → Prop} (hn : n.Gated) (hc : c.Fits M)
    (h : n.select c=.ok (n',a)) : n'.Gated := by
  have hstep : ∀ {m : Message} {rn : RawNode} {err : Option StepErr}, m.Stamped →
      n.rn.stepRaft m=.ok (rn,err) → Gated { n with rn := rn } := by
    intro m rn err hs h
    obtain ⟨⟨r,err'⟩,hr,h⟩ := bind_eq_ok.mp h
    cases h
    exact hn.moves n.rd (.step hs hr) (fun h => h)
  cases c with
  | propc m wait =>
    dsimp only [Node.select] at h
    split at h
    · obtain ⟨⟨rn,err⟩,h1,h⟩ := bind_eq_ok.mp h
      cases h
      have ht : m.type=.msgProp := hc
      exact hstep (m := { m with fromId := n.rn.raft.id }) (fun hs => by rw [ht] at hs; cases hs) h1
    · cases h
      exact hn
  | recvc m =>
    dsimp only [Node.select] at h
    split at h
    · obtain ⟨⟨rn,err⟩,h1,h⟩ := bind_eq_ok.mp h
      cases h
      exact hstep hc.1 h1
    · cases h
      exact hn
  | confc cc =>
    obtain ⟨⟨rn,cs⟩,h1,h⟩ := bind_eq_ok.mp h
    cases h
    obtain ⟨⟨r,cs'⟩,hr,h1⟩ := bind_eq_ok.mp h1
    cases h1
    exact hn.moves n.rd (.conf hr) (fun h => (Bool.and_eq_true_iff.mp h).1)
  | tickc =>
    obtain ⟨rn,h1,h⟩ := bind_eq_ok.mp h
    cases h
    obtain ⟨r,hr,h1⟩ := bind_eq_ok.mp h1
    cases h1
    exact hn.moves n.rd (.tick hr) (fun h => h)
  | readyc =>
    dsimp only [Node.select] at h
    split at h
    · cases h
      exact hn.moves n.rd (.flush _) (fun h => h)
    · cases h
      exact hn
  | advancec =>
    dsimp only [Node.select] at h
    split at h
    · obtain ⟨rn,h1,h⟩ := bind_eq_ok.mp h
      cases h
      obtain ⟨r,hr,h1⟩ := bind_eq_ok.mp h1
      cases h1
      exact hn.moves .none (.advance hr) (fun h => h)
    · cases h
      exact hn
  | status =>
    cases h
    exact hn
  | stop =>
    cases h
    exact ⟨hn.aware,hn.propc⟩

theorem Gated.act {d : Deed} {a : Answer} (hn : n.Gated)
    (hd : ∀ m, d.message=some m → m.Stamped) (h : n.act d=.ok (n',a)) : n'.Gated := by
  cases d with
  | call q =>
    dsimp only [Node.act,Node.call] at h
    split at h
    · cases h
      exact hn
    · rename_i c hcase
      split at h
      · cases h
        exact hn
      · obtain ⟨n1,h1,h⟩ := bind_eq_ok.mp h
        refine (hn.arm h1).1.select (M := Heard (Deed.call q).message.toList)
          (Request.case_fits hcase ?_) h
        rintro m rfl
        exact ⟨hd m rfl,List.mem_singleton_self m⟩
  | write st =>
    cases h
    unfold Node.write
    split
    · exact hn.moves n.rd (.log _ rfl) (fun h => h)
    · exact hn

theorem Gated.run {ds : List Deed} {as : List Answer} (hn : n.Gated)
    (hds : ∀ m ∈ ds.filterMap Deed.message, m.Stamped) (h : n.run ds=.ok (n',as)) : n'.Gated := by
  induction ds generalizing n as with
  | nil =>
    cases h
    exact hn
  | cons d ds ih =>
    obtain ⟨⟨n1,a⟩,h1,h⟩ := bind_eq_ok.mp h
    obtain ⟨⟨n2,as'⟩,h2,h⟩ := bind_eq_ok.mp h
    cases h
    have hmem : ∀ {m : Message} {b : Deed}, b ∈ d::ds → b.message=some m → m.Stamped :=
      fun hb hm => hds _ (List.mem_filterMap.mpr ⟨_,hb,hm⟩)
    refine ih (hn.act (fun m hm => hmem List.mem_cons_self hm) h1) (fun m hm => ?_) h2
    obtain ⟨b,hb,hbm⟩ := List.mem_filterMap.mp hm
    exact hmem (List.mem_cons_of_mem _ hb) hbm

/-- A call of Propose that comes back tells what has become of the data. It is never dropped for
want of a leader: without one the call waits. -/
theorem run_propose {rn : RawNode} {ds : List Deed} {as : List Answer} {data : Bytes}
    {err : Option StepErr} (hrn : Session.Start { rn := rn })
    (hstamped : ∀ m ∈ ds.filterMap Deed.message, m.Stamped) (h : run { rn := rn } ds=.ok (n,as))
    (hcall : n.call (.propose data)=.ok (n',.result err)) : n.rn.raft.lead≠noNode ∧
      n.rn.raft.Fate { (default : Entry) with data := data } n'.rn.raft err := by
  have hstart : Gated { rn := rn } := by
    have hf : rn.raft.state=.stateFollower := hrn.follower
    refine ⟨⟨fun hs => ?_,fun hs => ?_⟩,fun h => (by cases h)⟩
    · cases hf.symm.trans hs
    · rcases hs with hs | hs <;> cases hf.symm.trans hs
  have hn := hstart.run hstamped h
  have hcall : (if n.done=true then .ok (n,.stopped) else n.arm >>= fun n =>
      n.select (.propc { type := .msgProp, entries := [{ (default : Entry) with data := data }] }
        true))=Except.ok (n',Answer.result err) := hcall
  split at hcall
  · cases hcall
  obtain ⟨n1,h1,hsel⟩ := bind_eq_ok.mp hcall
  obtain ⟨hn1,hrn1,hlead⟩ := hn.arm h1
  dsimp only [Node.select] at hsel
  split at hsel
  · rename_i hopen
    obtain ⟨⟨rn2,err2⟩,h2,hsel⟩ := bind_eq_ok.mp hsel
    cases hsel
    obtain ⟨⟨r,err3⟩,hr,h2⟩ := bind_eq_ok.mp h2
    cases h2
    have hknown : n.rn.raft.lead≠noNode := hlead ▸ hn1.propc hopen
    rw [hrn1] at hr
    exact ⟨hknown,Raft.step_fate hn.aware hknown rfl hr⟩
  · cases hsel

end

section

local instance gateWire : Raftpb := Wire.small

theorem run_propose_overtaken : ∃ (rn : RawNode) (n n' : Node) (as : List Answer),
    run { rn := rn } overtaken=.ok (n,as) ∧ n.call (.propose [8])=.ok (n',.result none) ∧
    n.rn.raft.lead≠noNode ∧
    n.rn.raft.Fate { (default : Entry) with data := [8] } n'.rn.raft none := by
  obtain ⟨rn,n,n',as,hrn,hrun,hcall⟩ : ∃ rn n n' as,
      RawNode.newRawNode Session.pairConfig []=.ok rn ∧
      run { rn := rn } overtaken=.ok (n,as) ∧ n.call (.propose [8])=.ok (n',.result none) :=
    ⟨_,_,_,_,rfl,rfl,rfl⟩
  have hst : ∀ m ∈ overtaken.filterMap Deed.message, m.Stamped := by
    intro m hm
    cases List.mem_singleton.mp hm
    exact fun _ => Nat.one_ne_zero
  exact ⟨rn,n,n',as,hrun,hcall,run_propose (.fresh ⟨by decide,by decide⟩ hrn) hst hrun hcall⟩

end

end Node

end RaftTesting
