import RaftTesting.Node.Firm
import RaftTesting.Node.Windows

namespace RaftTesting

namespace Raft

/-- Appends to a peer that carry the entries of the log from one position up to another, one
behind the other: none is empty, and each tells the term of the position before its own. -/
def Stream (r : Raft) (dst : Nat) : Nat → List Message → Nat → Prop
  | next,[],last => last=next
  | next,m::ms,last => m.type=.msgApp ∧ m.toId=dst ∧ m.fromId=r.id ∧ m.term=r.term ∧
      m.commit=r.raftLog.committed ∧ m.index+1=next ∧ r.raftLog.term m.index=.ok m.logTerm ∧
      m.entries≠[] ∧ Numbered m.index m.entries ∧ r.raftLog.Reads next m.entries ∧
      Stream r dst (next+m.entries.length) ms last

theorem Stream.of_same {r r' : Raft} {dst next last : Nat} {ms : List Message}
    (hi : r'.id=r.id) (ht : r'.term=r.term) (hl : r'.raftLog=r.raftLog)
    (h : r'.Stream dst next ms last) : r.Stream dst next ms last := by
  induction ms generalizing next with
  | nil => exact h
  | cons m ms ih =>
    unfold Stream at h ⊢
    rw [hi,ht,hl] at h
    obtain ⟨h1,h2,h3,h4,h5,h6,h7,h8,h9,h10,h⟩ := h
    exact ⟨h1,h2,h3,h4,h5,h6,h7,h8,h9,h10,ih h⟩

/-- The append that goes out to a peer with these entries. -/
def appendOf (r : Raft) (dst next : Nat) (ents : List Entry) : Message where
  type := .msgApp
  toId := dst
  fromId := r.id
  term := r.term
  index := next-1
  logTerm := r.raftLog.view.termAt (next-1)
  entries := ents
  commit := r.raftLog.committed

section

variable [Raftpb] {r : Raft} {dst : Nat} {pr : Progress}

/-- One round of the loop. It ends if the peer is paused, or if the log has no entries for it;
otherwise an append goes out, and never a snapshot. -/
theorem maybeSendAppend_cases (hl : r.raftLog.Readable) (hp : r.raftLog.Placed)
    (hget : r.prs.progress.get? dst=some pr) :
    r.maybeSendAppend dst false=.ok (r,false) ∨ pr.isPaused=false ∧ r.raftLog.view.index<pr.next ∧
      ∃ ents, ents≠[] ∧ Numbered (pr.next-1) ents ∧ r.raftLog.Reads pr.next ents ∧
        ∀ pr', progressSent pr ents=.ok pr' → r.maybeSendAppend dst false=
          .ok ({ r.setProgress dst pr' with msgs := r.msgs++[r.appendOf dst pr.next ents] },true) := by
  unfold maybeSendAppend
  rw [hget]
  dsimp only
  cases hpause : pr.isPaused with
  | true => exact .inl rfl
  | false =>
    rw [if_neg Bool.false_ne_true]
    by_cases hi : r.raftLog.view.index<pr.next
    · have hents := hl.entries_eq r.maxMsgSize hi
      rw [hents,hl.term_eq]
      generalize hes : limitSize (r.raftLog.view.entries.drop (pr.next-r.raftLog.view.index-1))
        r.maxMsgSize=ents at hents ⊢
      by_cases hnil : ents=[]
      · left
        rw [hnil]
        rfl
      · right
        have hreads : r.raftLog.Reads pr.next ents := by
          unfold RaftLog.entries at hents
          split at hents
          · cases hents
            exact absurd rfl hnil
          · exact (RaftLog.slice_reads hents).2.2.2.1
        refine ⟨rfl,hi,ents,hnil,fun k e hk => ?_,hreads,fun pr' hpr' => ?_⟩
        · have := RaftLog.entryAt_index hp.pos hp.stored hp.unstable (hreads k e hk)
          omega
        · have hempty : (ents.isEmpty && !false)=false := by simpa using hnil
          change (if ents.isEmpty && !false then _ else r.sendApp dst pr _ ents)=_
          rw [hempty,if_neg Bool.false_ne_true]
          unfold sendApp
          rw [hpr']
          have hprev : usub pr.next 1=pr.next-1 := usub_of_le (by omega)
          rw [hprev]
          rfl
    · -- the entries are compacted, which the loop takes for nothing to send
      left
      have hlast := hl.index_le
      have hcomp : r.raftLog.entries pr.next r.maxMsgSize=.ok (.error .errCompacted) := by
        unfold RaftLog.entries RaftLog.slice RaftLog.mustCheckOutOfBounds
        rw [if_neg (by omega),if_neg (by omega)]
        dsimp only
        rw [if_pos (by rw [r.raftLog.firstIndex_eq_view]; omega)]
        rfl
      rw [hcomp,hl.term_eq]
      rfl

theorem sendAppendLoop_stop (h : r.maybeSendAppend dst false=.ok (r,false)) {fuel : Nat}
    (hf : 0<fuel) : sendAppendLoop dst fuel r=.ok r := by
  cases fuel with
  | zero => exact absurd hf (Nat.lt_irrefl 0)
  | succ fuel =>
    unfold sendAppendLoop
    rw [h]
    rfl

theorem sendAppendLoop_next {r' : Raft} (h : r.maybeSendAppend dst false=.ok (r',true))
    (fuel : Nat) : sendAppendLoop dst (fuel+1) r=sendAppendLoop dst fuel r' := by
  rw [sendAppendLoop,h]
  rfl

/-- What the loop does, whatever fuel above the number of its rounds it is given. -/
structure Looped (r : Raft) (dst : Nat) (pr : Progress) (ms : List Message) (r' : Raft)
    (pr' : Progress) : Prop where
  loop : ∀ fuel, ms.length<fuel → sendAppendLoop dst fuel r=.ok r'
  msgs : r'.msgs=r.msgs++ms
  raftLog : r'.raftLog=r.raftLog
  tracked : r'.prs.progress.get? dst=some pr'
  state : pr'.state=pr.state
  stream : ∃ last, r.Stream dst pr.next ms last ∧
    (pr.state=.stateReplicate → pr'.next=last) ∧ (pr.state≠.stateReplicate → pr'.next=pr.next)

theorem Looped.stop (hget : r.prs.progress.get? dst=some pr)
    (h : r.maybeSendAppend dst false=.ok (r,false)) : Looped r dst pr [] r pr where
  loop := fun _ hf => sendAppendLoop_stop h hf
  msgs := (List.append_nil _).symm
  raftLog := rfl
  tracked := hget
  state := rfl
  stream := ⟨pr.next,rfl,fun _ => rfl,fun _ => rfl⟩

/-- A peer that is probed gets one append at most. -/
theorem looped_probe (hl : r.raftLog.Readable) (hp : r.raftLog.Placed)
    (hget : r.prs.progress.get? dst=some pr) (hs : pr.state≠.stateReplicate) :
    ∃ ms r' pr', Looped r dst pr ms r' pr' ∧ ms.length≤1 := by
  rcases maybeSendAppend_cases hl hp hget with hstop | ⟨hrun,hi,ents,hne,hnum,hreads,hsend⟩
  · exact ⟨[],r,pr,.stop hget hstop,Nat.zero_le _⟩
  · have hprobe : pr.state=.stateProbe := by
      unfold Progress.isPaused at hrun
      cases hstate : pr.state with
      | stateProbe => rfl
      | stateReplicate => exact absurd hstate hs
      | stateSnapshot =>
        rw [hstate] at hrun
        cases hrun
    obtain ⟨e,hlast,-⟩ := LogSession.numbered_getLast hnum hne
    have hsent : progressSent pr ents=.ok { pr with probeSent := true } := by
      unfold progressSent
      rw [hlast]
      dsimp only
      rw [hprobe]
    have hfirst := hsend _ hsent
    generalize hr1 : ({ r.setProgress dst { pr with probeSent := true } with
      msgs := r.msgs++[r.appendOf dst pr.next ents] } : Raft)=r1 at hfirst
    have hget1 : r1.prs.progress.get? dst=some { pr with probeSent := true } := by
      rw [← hr1]
      exact SortedMap.get?_insert_self _ _ _
    -- the next round finds the peer paused
    have hsecond : r1.maybeSendAppend dst false=.ok (r1,false) := by
      unfold maybeSendAppend Progress.isPaused
      rw [hget1]
      dsimp only
      rw [hprobe]
      rfl
    have hlog1 : r1.raftLog=r.raftLog := by rw [← hr1]; rfl
    refine ⟨[r.appendOf dst pr.next ents],r1,_,⟨fun fuel hf => ?_,?_,hlog1,hget1,rfl,?_⟩,le_rfl⟩
    · obtain ⟨fuel,rfl⟩ : ∃ k, fuel=k+1 := ⟨fuel-1,by rw [List.length_singleton] at hf; omega⟩
      rw [sendAppendLoop_next hfirst]
      exact sendAppendLoop_stop hsecond (Nat.lt_of_succ_lt_succ hf)
    · rw [← hr1]
    · refine ⟨pr.next+ents.length,?_,fun h => absurd h hs,fun _ => rfl⟩
      exact ⟨rfl,rfl,rfl,rfl,rfl,Nat.sub_add_cancel (by omega),hl.term_eq _,hne,hnum,hreads,rfl⟩

/-- A peer that is replicated to gets appends until its window is full or it has everything. -/
theorem looped_replicate {k : Nat} (hk : pr.inflights.size-pr.inflights.window.length=k)
    (hl : r.raftLog.Readable) (hp : r.raftLog.Placed) (hget : r.prs.progress.get? dst=some pr)
    (hs : pr.state=.stateReplicate) (hr : pr.inflights.Ringed) :
    ∃ ms r' pr', Looped r dst pr ms r' pr' ∧ ms.length≤k := by
  -- the room in the window shrinks with every append
  induction k generalizing r pr with
  | zero =>
    have hfull : pr.isPaused=true := by
      have hcount := hr.laid.count
      rw [hr.length] at hk
      unfold Progress.isPaused Inflights.full
      rw [hs]
      exact decide_eq_true (by omega)
    rcases maybeSendAppend_cases hl hp hget with hstop | ⟨hrun,-⟩
    · exact ⟨[],r,pr,.stop hget hstop,le_rfl⟩
    · rw [hfull] at hrun
      cases hrun
  | succ k ih =>
    rcases maybeSendAppend_cases hl hp hget with hstop | ⟨hrun,hi,ents,hne,hnum,hreads,hsend⟩
    · exact ⟨[],r,pr,.stop hget hstop,Nat.zero_le _⟩
    · have hroom : pr.inflights.full=false := by
        unfold Progress.isPaused at hrun
        rw [hs] at hrun
        exact hrun
      obtain ⟨e,hlast,-,hei⟩ := LogSession.numbered_getLast hnum hne
      obtain ⟨i,hadd,hring,hsize,hwin⟩ := hr.add hroom e.index
      have hsent : progressSent pr ents=.ok { pr.optimisticUpdate e.index with inflights := i } := by
        unfold progressSent
        rw [hlast]
        dsimp only
        rw [hs]
        dsimp only
        rw [hadd]
        rfl
      have hfirst := hsend _ hsent
      have hnext : ({ pr.optimisticUpdate e.index with inflights := i } : Progress).next=
          pr.next+ents.length := by
        change e.index+1=_
        omega
      generalize hpr1 : ({ pr.optimisticUpdate e.index with inflights := i } : Progress)=pr1
        at hfirst hnext
      generalize hr1 : ({ r.setProgress dst pr1 with
        msgs := r.msgs++[r.appendOf dst pr.next ents] } : Raft)=r1 at hfirst
      have hlog1 : r1.raftLog=r.raftLog := by rw [← hr1]; rfl
      have hget1 : r1.prs.progress.get? dst=some pr1 := by
        rw [← hr1]
        exact SortedMap.get?_insert_self _ _ _
      have hinf1 : pr1.inflights=i := by rw [← hpr1]
      have hs1 : pr1.state=.stateReplicate := by rw [← hpr1]; exact hs
      have hk1 : pr1.inflights.size-pr1.inflights.window.length=k := by
        rw [hinf1,hsize,hwin,List.length_append,List.length_singleton]
        omega
      obtain ⟨ms,r',pr',hloop,hlen⟩ := ih hk1 (hlog1 ▸ hl) (hlog1 ▸ hp) hget1 hs1 (hinf1 ▸ hring)
      obtain ⟨last,hstream,hend,-⟩ := hloop.stream
      refine ⟨r.appendOf dst pr.next ents::ms,r',pr',⟨fun fuel hf => ?_,?_,?_,hloop.tracked,?_,?_⟩,
        Nat.succ_le_succ hlen⟩
      · obtain ⟨fuel,rfl⟩ : ∃ k, fuel=k+1 := ⟨fuel-1,by rw [List.length_cons] at hf; omega⟩
        rw [sendAppendLoop_next hfirst]
        exact hloop.loop fuel (Nat.lt_of_succ_lt_succ hf)
      · rw [hloop.msgs,← hr1,List.append_assoc]
        rfl
      · exact hloop.raftLog.trans hlog1
      · rw [hloop.state,hs1,hs]
      · refine ⟨last,⟨rfl,rfl,rfl,rfl,rfl,Nat.sub_add_cancel (by omega),hl.term_eq _,hne,hnum,hreads,
          ?_⟩,fun _ => hend hs1,fun h => absurd hs h⟩
        rw [hnext] at hstream
        refine Stream.of_same ?_ ?_ hlog1 hstream
        · rw [← hr1]
          rfl
        · rw [← hr1]
          rfl

/-- What goes out after an acknowledgement leaves the set of peers alone. -/
theorem sendAfterAck_tracked {r' : Raft} {b : Bool} (hlead : r.state=.stateLeader)
    (h : r.sendAfterAck dst b=.ok r') : r'.id=r.id ∧
      ∀ id, (r'.prs.progress.get? id).map (·.isLearner)=(r.prs.progress.get? id).map (·.isLearner) := by
  obtain ⟨⟨r1,advanced⟩,hc,h⟩ := bind_eq_ok.mp h
  obtain ⟨⟨l,changed⟩,-,hc⟩ := bind_eq_ok.mp hc
  cases hc
  have hlead1 : (r.setLog l).state=.stateLeader := hlead
  have hsent : Sent True (fun _ => False) (r.setLog l) r' := by
    dsimp only at h
    split at h
    · obtain ⟨r2,hrel,h⟩ := bind_eq_ok.mp h
      have h2 : Sent True (fun _ => False) (r.setLog l) r2 :=
        releasePendingReadIndexMessages_sent hlead1 hrel
      exact h2.trans (bcastAppend_sent (h2.state.trans hlead1) h)
    · split at h
      · exact sendAppend_sent hlead1 h
      · cases h
        exact .refl _
  exact ⟨hsent.sends.frame.id,hsent.sends.frame.tracked⟩

end

end Raft

namespace Session

open RaftTesting.Core

section

variable [Raftpb] {x y : Session} {acts : List Act} {dst : Nat} {r : Raft}

/-- Where the send loop runs for a peer: in a state that the node is in, or in the middle of a
step, when an acknowledgement has moved Match and the first appends have gone out. -/
inductive Sending (y : Session) (dst : Nat) : Raft → Prop
  | now {pr : Progress} (hget : y.rn.raft.prs.progress.get? dst=some pr) :
      Sending y dst y.rn.raft
  | acked {m : Message} {pr pr1 : Progress} {r : Raft} (hm : m.Fine) (htype : m.type=.msgAppResp)
      (hterm : m.term=y.rn.raft.term) (hrej : m.reject=false) (hfrom : m.fromId=dst)
      (hget : y.rn.raft.prs.progress.get? m.fromId=some pr)
      (hupd : (({ pr with recentActive := true } : Progress).maybeUpdate m.index).2=true)
      (hacked : Raft.progressAcked
        (({ pr with recentActive := true } : Progress).maybeUpdate m.index).1 m.index=.ok pr1)
      (hafter : (y.rn.raft.setProgress m.fromId pr1).sendAfterAck m.fromId pr.isPaused=.ok r) :
      Sending y dst r

/-- The loop runs for a peer that is tracked, in a leader that has only made moves. -/
theorem Sending.moves (hlead : y.rn.raft.state=.stateLeader) (h : y.Sending dst r) :
    r.state=.stateLeader ∧ r.id=y.rn.raft.id ∧ (∃ pr, r.prs.progress.get? dst=some pr) ∧
      Moves (fun m => m.Fine ∧ m.Anchored) y.rn.raft.core r.core := by
  cases h with
  | now hget => exact ⟨hlead,rfl,⟨_,hget⟩,.refl⟩
  | @acked m pr pr1 _ hm htype hterm hrej hfrom hget hupd hacked hafter =>
    have hanch : m.Anchored := by
      constructor <;> intro ht <;> cases htype.symm.trans ht
    have hack := Raft.ack_move (S := fun m => m.Fine ∧ m.Anchored) hlead ⟨hm,hanch⟩
      htype hterm hrej hget rfl hupd hacked
    have hlead1 : (y.rn.raft.setProgress m.fromId pr1).state=.stateLeader := hlead
    have hsent := Raft.sendAfterAck_handled (T := True) (S := fun m => m.Fine ∧ m.Anchored)
      hlead1 hafter
    obtain ⟨hid,htracked⟩ := Raft.sendAfterAck_tracked hlead1 hafter
    refine ⟨hsent.state.trans hlead1,hid,?_,.head hack hsent.moves⟩
    have hsome : (r.prs.progress.get? dst).map (·.isLearner)=some pr1.isLearner := by
      rw [htracked,← hfrom]
      change (SortedMap.get? (SortedMap.insert _ _ _) _).map _=_
      rw [SortedMap.get?_insert_self]
      rfl
    obtain ⟨pr',hpr',-⟩ := Option.map_eq_some_iff.mp hsome
    exact ⟨pr',hpr'⟩

/-- The send loop of a leader ends after as many rounds as the window of the peer has room
for, whatever the size limit, and sends the entries from Next on without a gap. -/
theorem run_pipeline (hx : x.Start) (hfits : x.Along Fits acts) (hanch : x.Along Anchored acts)
    (hy : x.run acts=.ok y) (hlead : y.rn.raft.state=.stateLeader) (hdst : dst≠y.rn.raft.id)
    (hr : y.Sending dst r) (hmax : 0<r.prs.maxInflight) : ∃ pr ms r' pr',
      r.prs.progress.get? dst=some pr ∧ Raft.Looped r dst pr ms r' pr' ∧
      ms.length≤r.prs.maxInflight ∧ (pr.state=.stateReplicate →
        pr.inflights.window.length+ms.length≤r.prs.maxInflight) ∧
      (pr.state≠.stateReplicate → ms.length≤1) := by
  obtain ⟨hl,hid,⟨pr,hget⟩,hmoves⟩ := hr.moves hlead
  have hfirm := run_firm hx hfits hanch hy
  have hfirm' : r.core.Firm y.log := Moves.firm (fun _ hm => hm) hfirm hmoves
  have hpaced : y.rn.raft.core.Paced False := (run_paced hx hfits False.elim hy).2
  have hpaced' : r.core.Paced False := Moves.paced (fun m hm => hm.1) hfirm.base hfirm.old rfl
    False.elim hpaced hmoves
  have hread : r.raftLog.Readable := hfirm'.readable (by
    change r.state≠_
    rw [hl]
    nofun)
  have hplaced : r.raftLog.Placed := hfirm'.base.placed
  have hpr : pr.Paced r.prs.maxInflight := hpaced' hl dst pr (fun he => hdst (he.trans hid)) hget
  by_cases hs : pr.state=.stateReplicate
  · obtain ⟨ms,r',pr',hloop,hlen⟩ := Raft.looped_replicate rfl hread hplaced hget hs hpr.ringed
    rw [hpr.size] at hlen
    have hwin := hpr.length_le
    exact ⟨pr,ms,r',pr',hget,hloop,by omega,fun _ => by omega,fun hne => absurd hs hne⟩
  · obtain ⟨ms,r',pr',hloop,hlen⟩ := Raft.looped_probe hread hplaced hget hs
    exact ⟨pr,ms,r',pr',hget,hloop,by omega,fun hr => absurd hr hs,fun _ => hlen⟩

end

end Session

namespace Session

section

local instance pipelineWire : Raftpb := Wire.small

/-- The other voter has acknowledged the first entry. The second one goes out with the commit
index, and the loop sends the third. -/
theorem run_pipeline_acknowledged : ∃ x y r pr ms r' pr', pair=.ok x ∧ x.run elected=.ok y ∧
    y.Sending 2 r ∧ r.prs.progress.get? 2=some pr ∧ pr.state=.stateReplicate ∧ pr.next=3 ∧
    r.raftLog.lastIndex=3 ∧ Raft.Looped r 2 pr ms r' pr' ∧ ms.length≤256 := by
  obtain ⟨x,y,pr0,pr1,r,pr,hx,hfits,hanch,hy,hlead,hid,hterm,hget0,hupd,hacked,hafter,hmax,hget,hs,
      hnext,hlast⟩ :
    ∃ x y pr0 pr1 r pr, pair=.ok x ∧ x.Along Fits elected ∧ x.Along Anchored elected ∧
      x.run elected=.ok y ∧ y.rn.raft.state=.stateLeader ∧ y.rn.raft.id=1 ∧ y.rn.raft.term=1 ∧
      y.rn.raft.prs.progress.get? 2=some pr0 ∧
      (({ pr0 with recentActive := true } : Progress).maybeUpdate 1).2=true ∧
      Raft.progressAcked (({ pr0 with recentActive := true } : Progress).maybeUpdate 1).1 1=.ok pr1 ∧
      (y.rn.raft.setProgress 2 pr1).sendAfterAck 2 pr0.isPaused=.ok r ∧
      r.prs.maxInflight=256 ∧ r.prs.progress.get? 2=some pr ∧ pr.state=.stateReplicate ∧
      pr.next=3 ∧ r.raftLog.lastIndex=3 :=
    ⟨_,_,_,_,_,_,rfl,by decide +kernel,by decide +kernel,rfl,by decide +kernel,by decide +kernel,
      by decide +kernel,rfl,by decide +kernel,rfl,rfl,by decide +kernel,rfl,by decide +kernel,
      by decide +kernel,by decide +kernel⟩
  have hsend : y.Sending 2 r := .acked
    (m := { type := .msgAppResp, toId := 1, fromId := 2, term := 1, index := 1 })
    (by decide) rfl hterm.symm rfl rfl hget0 hupd hacked hafter
  obtain ⟨pr',ms,r',pr'',hget',hloop,hlen,-⟩ :=
    run_pipeline (pair_start hx) hfits hanch hy hlead (by omega) hsend (by omega)
  cases hget.symm.trans hget'
  exact ⟨x,y,r,pr,ms,r',pr'',hx,hy,hsend,hget,hs,hnext,hlast,hloop,by omega⟩

end

end Session

end RaftTesting
