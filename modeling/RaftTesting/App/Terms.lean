import RaftTesting.App.Apply
import RaftTesting.Node.HardState

namespace RaftTesting

theorem Call.stamped (id : Nat) (c : Call) : (c.message id).Stamped := by
  intro h
  cases c <;> cases h

namespace App

/-- The terms of the TermChange events, in order. -/
def terms (obs : List Obs) : List Nat :=
  obs.filterMap (fun | .termChange t => some t | _ => none)

/-- The recorded term stays and none is published; the protocol node's does not go back. -/
structure Silent (n n' : App) : Prop where
  le : n.rn.raft.term≤n'.rn.raft.term
  terms : terms n'.obs=terms n.obs
  term : n'.state.term=n.state.term

namespace Silent

variable {n n' n'' : App}

theorem refl (n : App) : Silent n n := ⟨le_rfl,rfl,rfl⟩

theorem trans (h : Silent n n') (h' : Silent n' n'') : Silent n n'' :=
  ⟨h.le.trans h'.le,h'.terms.trans h.terms,h'.term.trans h.term⟩

end Silent

section

variable [Raftpb] [Gob] {n n' : App} {rn : RawNode} {m : Message} {out : RawNode × Option StepErr}

omit [Gob] in
theorem stepRaft_term_le (hm : m.Stamped) (h : rn.stepRaft m=.ok out) :
    rn.raft.term≤out.1.raft.term := by
  have hop : rn.runOp (.step m)=.ok out.1 := by
    change (rn.stepRaft m >>= fun p => .ok p.1)=.ok out.1
    rw [h]
    rfl
  refine (RawNode.runOp_hardLe (fun m' hm' => ?_) hop).term
  cases hm'
  exact hm

omit [Gob] in
theorem step_term_le (hm : m.Stamped) (h : rn.step m=.ok out) :
    rn.raft.term≤out.1.raft.term := by
  unfold RawNode.step at h
  split_ifs at h
  · cases h
    exact le_rfl
  · exact stepRaft_term_le hm h
  · cases h
    exact le_rfl

omit [Raftpb] [Gob] in
theorem setNode_silent {res : Except Panic RawNode}
    (h : ∀ rn, res=.ok rn → n.rn.raft.term≤rn.raft.term) : Silent n (n.setNode res) := by
  cases res with
  | error p => exact ⟨le_rfl,rfl,rfl⟩
  | ok rn => exact ⟨h rn rfl,rfl,rfl⟩

omit [Raftpb] in
theorem set_silent (n : App) (data : Bytes) : Silent n (n.set data) := by
  unfold set
  split
  · exact .refl n
  · exact ⟨le_rfl,rfl,rfl⟩

omit [Gob] in
theorem applyConfChange_silent (n : App) (cc : ConfChange) : Silent n (n.applyConfChange cc) := by
  unfold applyConfChange
  split
  · exact ⟨le_rfl,rfl,rfl⟩
  · rename_i rn cs h
    have hop : n.rn.runOp (.applyConfChange (Raftpb.asV2 cc))=.ok rn := by
      change (n.rn.applyConfChange (Raftpb.asV2 cc) >>= fun p => .ok p.1)=.ok rn
      rw [h]
      rfl
    have hle := (RawNode.runOp_hardLe (fun m hm => by cases hm) hop).term
    dsimp only
    split_ifs
    · exact ⟨hle,rfl,rfl⟩
    · exact ⟨hle,rfl,rfl⟩

theorem applyEntry_silent (n : App) (e : Entry) : Silent n (n.applyEntry e) := by
  have hcommit : Silent n { n.publish (.commit e.index e.data) with
      state := { n.state with commitIndex := e.index } } :=
    ⟨le_rfl,by simp [publish,terms],rfl⟩
  unfold applyEntry
  cases e.type <;> dsimp only
  · split_ifs
    · exact hcommit
    · exact hcommit.trans (set_silent _ _)
  · exact hcommit.trans (applyConfChange_silent _ _)
  · exact hcommit

theorem applyLoop_silent (n : App) (es : List Entry) : Silent n (n.applyLoop es) := by
  induction es generalizing n with
  | nil => exact .refl n
  | cons e es ih =>
    have hstep := applyEntry_silent n e
    simp only [applyLoop]
    split_ifs
    · exact hstep
    · exact hstep.trans (ih _)

theorem applyEntries_silent (n : App) (b : List Entry) : Silent n (n.applyEntries b) := by
  unfold applyEntries
  split
  · exact .refl n
  · dsimp only
    split
    · exact ⟨le_rfl,rfl,rfl⟩
    · exact applyLoop_silent _ _

omit [Raftpb] [Gob] in
theorem sendMessages_silent (n : App) (msgs : List Message) : Silent n (n.sendMessages msgs) := by
  refine ⟨le_rfl,?_,rfl⟩
  simp [sendMessages,terms]

theorem work_silent (n : App) (rd : Ready) : Silent n (n.work rd) := by
  unfold work
  split
  · exact ⟨le_rfl,rfl,rfl⟩
  · rename_i ms h
    have hsaved : Silent n (n.setStorage ms) := ⟨le_rfl,rfl,rfl⟩
    exact (hsaved.trans (sendMessages_silent _ _)).trans (applyEntries_silent _ _)

/-- Messages carry the term that send attaches, and a Ready reports the hard state
that the protocol node has to report. -/
def Proper (n : App) : Input → Prop
  | .recv m => m.Stamped
  | .ready rd => ∃ rd', n.rn.readyWithoutAccept=.ok rd' ∧ rd'.hardState=rd.hardState
  | _ => True

/-- A Ready without a hard state comes only while no term is recorded. -/
def Reports (n : App) : Input → Prop
  | .ready rd => n.halted=none → n.pending=none → rd.hardState≠{} ∨ n.state.term=0
  | _ => True

/-- A step is silent, or it records and publishes the term of the protocol node. -/
def TermStep (n n' : App) : Prop :=
  Silent n n' ∨ n.rn.raft.term≤n'.rn.raft.term ∧ n.state.term≠n'.rn.raft.term ∧
    n'.state.term=n'.rn.raft.term ∧ terms n'.obs=terms n.obs++[n'.rn.raft.term]

omit [Raftpb] [Gob] in
/-- The term of the protocol node is compared with the recorded one. -/
theorem update_termStep (n' : App) (hle : n.rn.raft.term≤n'.rn.raft.term) (hobs : n'.obs=n.obs)
    (hstate : n'.state=n.state) : TermStep n (n'.updateTermState n'.rn.raft.term) := by
  unfold updateTermState
  split_ifs with hne
  · right
    exact ⟨hle,hstate ▸ hne,rfl,by simp [publish,hobs,terms]⟩
  · exact .inl ⟨hle,by rw [hobs],by rw [hstate]⟩

theorem take_ready_termStep {rd : Ready} (hp : n.Proper (.ready rd))
    (hc : n.pending=none → rd.hardState≠{} ∨ n.state.term=0) :
    TermStep n (n.take (.ready rd)) := by
  simp only [take]
  split
  · exact .inl (.refl n)
  · rename_i hnone
    obtain ⟨rd',hrd',hhard⟩ := hp
    obtain ⟨ents,-,hrd'⟩ := bind_eq_ok.mp hrd'
    cases hrd'
    change (if n.rn.raft.hardState=n.rn.prevHardSt then ({} : HardState) else _)=_ at hhard
    split_ifs at hhard with hsame
    · -- without a hard state the term zero is recorded again
      have hzero : n.state.term=rd.hardState.term := by
        rw [← hhard]
        exact (hc hnone).resolve_left (fun h => h hhard.symm)
      unfold updateTermState
      rw [if_neg (not_not.mpr hzero)]
      exact .inl ⟨le_rfl,rfl,rfl⟩
    · rw [← hhard]
      exact update_termStep { n with rn := n.rn.acceptReady rd, pending := some rd } le_rfl rfl rfl

theorem input_termStep {i : Input} (hp : n.Proper i) (hc : n.Reports i) :
    TermStep n (n.input i) := by
  unfold input
  split_ifs with hh
  · exact .inl (.refl n)
  have hrun : n.halted=none := by simpa using hh
  cases i with
  | tick fired =>
    simp only [take]
    split
    · exact .inl (.refl n)
    · exact .inl ⟨le_rfl,rfl,rfl⟩
    · rename_i rn _ htick
      have hle : n.rn.raft.term≤rn.raft.term := by
        split_ifs at htick
        · have hop : n.rn.runOp .tick=.ok rn := htick
          exact (RawNode.runOp_hardLe (fun m hm => by cases hm) hop).term
        · cases htick
          exact le_rfl
      exact update_termStep { n with rn := rn } hle rfl rfl
  | recv m =>
    refine .inl (setNode_silent (fun rn h => ?_))
    obtain ⟨out,hout,rfl⟩ := map_eq_ok.mp h
    exact step_term_le hp hout
  | call c =>
    refine .inl (setNode_silent (fun rn h => ?_))
    obtain ⟨out,hout,rfl⟩ := map_eq_ok.mp h
    exact stepRaft_term_le (c.stamped n.id) hout
  | ready rd => exact take_ready_termStep hp (hc hrun)
  | work =>
    simp only [take]
    split
    · rename_i rd _ _
      have hmark : Silent n { n with worked := true } := ⟨le_rfl,rfl,rfl⟩
      exact .inl (hmark.trans (work_silent _ rd))
    · exact .inl (.refl n)
  | advance =>
    simp only [take]
    split
    · rename_i rd _ _
      have hmark : Silent n { n with pending := none, worked := false } := ⟨le_rfl,rfl,rfl⟩
      refine .inl (hmark.trans (setNode_silent (fun rn h => ?_)))
      have hop : n.rn.runOp (.advance rd)=.ok rn := h
      exact (RawNode.runOp_hardLe (fun m hm => by cases hm) hop).term
    · exact .inl (.refl n)
  | get key => exact .inl ⟨le_rfl,by simp [take,publish,terms],rfl⟩

/-- A condition on every input at the state it comes in. -/
def Along (P : App → Input → Prop) (n : App) : List Input → Prop
  | [] => True
  | i::is => P n i ∧ (n.input i).Along P is

/-- The published terms increase up to the recorded one, which the protocol node has
reached. -/
structure TermInv (n : App) : Prop where
  increasing : (terms n.obs).Pairwise (· < ·)
  recorded : ∀ t∈terms n.obs, t≤n.state.term
  reached : n.state.term≤n.rn.raft.term

omit [Raftpb] [Gob] in
theorem TermInv.step (h : n.TermInv) (hs : TermStep n n') : n'.TermInv := by
  rcases hs with ⟨hle,hterms,hterm⟩ | ⟨hle,hne,hterm,hterms⟩
  · exact ⟨hterms ▸ h.increasing,hterms ▸ hterm ▸ h.recorded,hterm ▸ h.reached.trans hle⟩
  · have hlt : n.state.term<n'.rn.raft.term := lt_of_le_of_ne (h.reached.trans hle) hne
    refine ⟨?_,?_,hterm.le⟩
    · rw [hterms,List.pairwise_append]
      refine ⟨h.increasing,List.pairwise_singleton _ _,fun t ht t' ht' => ?_⟩
      rw [List.mem_singleton.mp ht']
      exact (h.recorded t ht).trans_lt hlt
    · intro t ht
      rw [hterms,List.mem_append,List.mem_singleton] at ht
      rw [hterm]
      rcases ht with ht | rfl
      · exact ((h.recorded t ht).trans_lt hlt).le
      · exact le_rfl

omit [Raftpb] [Gob] in
theorem TermStep.mem {t : Nat} (hs : TermStep n n') (ht : t∈terms n'.obs) :
    t∈terms n.obs ∨ t=n'.rn.raft.term := by
  rcases hs with hs | ⟨-,-,-,hterms⟩
  · exact .inl (hs.terms ▸ ht)
  · rwa [hterms,List.mem_append,List.mem_singleton] at ht

theorem run_terms {is : List Input} (h : n.TermInv) (hp : n.Along Proper is)
    (hc : n.Along Reports is) : (n.run is).TermInv ∧
      ∀ t∈terms (n.run is).obs, t∈terms n.obs ∨ ∃ pre, pre<+:is ∧ (n.run pre).rn.raft.term=t := by
  induction is generalizing n with
  | nil => exact ⟨h,fun t ht => .inl ht⟩
  | cons i is ih =>
    have hs := input_termStep hp.1 hc.1
    obtain ⟨hinv,hhad⟩ := ih (h.step hs) hp.2 hc.2
    refine ⟨hinv,fun t ht => ?_⟩
    rcases hhad t ht with hold | ⟨pre,hpre,hterm⟩
    · rcases hs.mem hold with hold | rfl
      · exact .inl hold
      · exact .inr ⟨[i],by simp,rfl⟩
    · exact .inr ⟨i::pre,by simpa using hpre,hterm⟩

/-- In a run in which no Ready without a hard state comes once a term is recorded, the
published terms increase strictly, and each was the term of the protocol node. -/
theorem termChange_faithful {is : List Input} (hterm : n.state.term=0) (hobs : n.obs=[])
    (hp : n.Along Proper is) (hc : n.Along Reports is) :
    (terms (n.run is).obs).Pairwise (· < ·) ∧
      ∀ t∈terms (n.run is).obs, ∃ pre, pre<+:is ∧ (n.run pre).rn.raft.term=t := by
  have hinit : n.TermInv := ⟨by simp [hobs,terms],by simp [hobs,terms],by omega⟩
  obtain ⟨hinv,hhad⟩ := run_terms hinit hp hc
  refine ⟨hinv.increasing,fun t ht => ?_⟩
  rcases hhad t ht with hold | hpre
  · simp [hobs,terms] at hold
  · exact hpre

end

section

local instance : Raftpb := Wire.small

local instance : Gob := ⟨fun _ => none⟩

/-- The Ready that the protocol node would hand out. -/
def nextReady (n : App) : Ready :=
  match n.rn.readyWithoutAccept with
  | .ok rd => rd
  | .error _ => ⟨none,{},[],[],{},[],[],false⟩

/-- The first of three nodes, just started. -/
def started : App :=
  match start Wire.marshalConfChange [⟨1,[]⟩,⟨2,[]⟩,⟨3,[]⟩] 1 [] with
  | .ok n => n
  | .error _ => appliedUpTo 0

/-- A tick and the first Ready. -/
def firstReady : List Input := [.tick false,.ready started.nextReady,.work,.advance]

/-- The heartbeat of a leader of a term. -/
def heartbeatOf (term : Nat) : Input :=
  .recv { type := .msgHeartbeat, toId := 1, fromId := 2, term := term }

/-- The first Ready, then a heartbeat and the Ready it gives rise to. -/
def beaten (term : Nat) : List Input :=
  firstReady++[heartbeatOf term,.ready (started.run (firstReady++[heartbeatOf term])).nextReady]

theorem termChange_faithful_beaten :
    started.Along Proper (beaten 2) ∧ started.Along Reports (beaten 2) ∧
    (terms (started.run (beaten 2)).obs).Pairwise (· < ·) ∧
      ∀ t∈terms (started.run (beaten 2)).obs,
        ∃ pre, pre<+:beaten 2 ∧ (started.run pre).rn.raft.term=t := by
  have hp : started.Along Proper (beaten 2) :=
    ⟨trivial,⟨_,rfl,rfl⟩,trivial,trivial,fun _ => by decide,⟨_,rfl,rfl⟩,trivial⟩
  have hfirst : started.nextReady.hardState≠{} := by decide +kernel
  have hsecond : (started.run (firstReady++[heartbeatOf 2])).nextReady.hardState≠{} := by
    decide +kernel
  have hc : started.Along Reports (beaten 2) :=
    ⟨trivial,fun _ _ => .inl hfirst,trivial,trivial,trivial,fun _ _ => .inl hsecond,trivial⟩
  exact ⟨hp,hc,termChange_faithful rfl rfl hp hc⟩

/-- A heartbeat of the same term leaves the hard state as it is, and with the next Ready the
node publishes the term zero, which the protocol node never had. -/
theorem termChange_zero : started.Along Proper (beaten 1) ∧
    terms (started.run (beaten 1)).obs=[1,0] ∧
    ∀ pre, pre<+:beaten 1 → (started.run pre).rn.raft.term=1 := by
  have hp : started.Along Proper (beaten 1) :=
    ⟨trivial,⟨_,rfl,rfl⟩,trivial,trivial,fun _ => by decide,⟨_,rfl,rfl⟩,trivial⟩
  have hterm : ∀ k<7, (started.run ((beaten 1).take k)).rn.raft.term=1 := by decide +kernel
  refine ⟨hp,by decide +kernel,fun pre hpre => ?_⟩
  rw [List.prefix_iff_eq_take.mp hpre]
  have hlen : pre.length≤6 := hpre.length_le
  exact hterm _ (by omega)

end

end App

end RaftTesting
