import RaftTesting.Protocol.Wire
import RaftTesting.Transition.Leader

namespace RaftTesting

namespace Raft

/-- What a proposal that is dropped must not touch. -/
structure Untouched (r r' : Raft) : Prop where
  term : r'.term=r.term
  vote : r'.vote=r.vote
  raftLog : r'.raftLog=r.raftLog
  pendingConfIndex : r'.pendingConfIndex=r.pendingConfIndex
  uncommittedSize : r'.uncommittedSize=r.uncommittedSize
  prs : r'.prs=r.prs
  leadTransferee : r'.leadTransferee=r.leadTransferee
  readOnly : r'.readOnly=r.readOnly
  msgs : r'.msgs=r.msgs

section

variable [Raftpb] {r r' : Raft} {m : Message}

/-- Every change among the entries is refused. -/
def RefusesAll (r : Raft) (es : List Entry) : Prop :=
  ∀ e ∈ es, ∀ cc, confChangeOf e=.ok (some cc) → r.refusesConfChange cc=true

/-- The proposal comes without a higher term, and if a leader looks at its entries at all,
there is no change among them that it would accept. -/
def Harmless (r : Raft) (m : Message) : Prop :=
  m.term≤r.term ∧ (r.state=.stateLeader → (r.prs.progress.get? r.id).isSome=true →
    r.leadTransferee=noNode → r.RefusesAll m.entries)

theorem screenEntries_refused {i : Nat} {es es' : List Entry} (hall : r.RefusesAll es)
    (h : r.screenEntries i es=.ok (r',es')) : r'=r := by
  induction es generalizing i es' with
  | nil =>
    cases h
    rfl
  | cons e es ih =>
    obtain ⟨⟨r1,e1⟩,h1,h⟩ := bind_eq_ok.mp h
    obtain ⟨⟨r2,es2⟩,h2,h⟩ := bind_eq_ok.mp h
    cases h
    obtain ⟨res,hres,h1⟩ := bind_eq_ok.mp h1
    obtain rfl : r1=r := by
      split at h1
      · cases h1
        rfl
      · rw [hall e List.mem_cons_self _ hres,if_pos rfl] at h1
        cases h1
        rfl
    exact ih (fun e' he' => hall e' (List.mem_cons_of_mem e he')) h2

/-- While a change is pending, all others are refused. -/
theorem refusesAll_of_pending (h : r.raftLog.applied<r.pendingConfIndex) (es : List Entry) :
    r.RefusesAll es := by
  intro e _ cc _
  unfold refusesConfChange
  simp [h]

/-- The first change that is accepted becomes pending. -/
theorem screenEntries_pends {i : Nat} {es es' : List Entry}
    (happlied : r.raftLog.applied≤r.raftLog.lastIndex) (hex : ¬r.RefusesAll es)
    (h : r.screenEntries i es=.ok (r',es')) :
    r.pendingConfIndex≤r.raftLog.applied ∧ r.raftLog.applied<r'.pendingConfIndex := by
  have hlow : r.pendingConfIndex≤r.raftLog.applied := by
    by_contra hlt
    exact hex (refusesAll_of_pending (Nat.not_le.mp hlt) es)
  refine ⟨hlow,?_⟩
  induction es generalizing i es' with
  | nil => exact absurd (fun _ he => absurd he List.not_mem_nil) hex
  | cons e es ih =>
    obtain ⟨⟨r1,e1⟩,h1,h⟩ := bind_eq_ok.mp h
    obtain ⟨⟨r2,es2⟩,h2,h⟩ := bind_eq_ok.mp h
    cases h
    obtain ⟨res,hres,h1⟩ := bind_eq_ok.mp h1
    -- a normal entry or a refused change leaves the node as it is
    have hrest : r1=r → (∀ cc, confChangeOf e=.ok (some cc) → r.refusesConfChange cc=true) →
        r.raftLog.applied<r'.pendingConfIndex := by
      rintro rfl hhead
      refine ih (fun hall => hex ?_) h2
      intro e' he'
      rcases List.mem_cons.mp he' with rfl | he'
      · exact hhead
      · exact hall e' he'
    split at h1
    · cases h1
      exact hrest rfl (fun cc hcc => by rw [hres] at hcc; cases hcc)
    · rename_i cc
      split at h1
      · rename_i hrefused
        cases h1
        refine hrest rfl (fun cc' hcc => ?_)
        rw [hres] at hcc
        cases hcc
        exact hrefused
      · cases h1
        have hpending : r.raftLog.applied<r.raftLog.lastIndex+i+1 := by omega
        have hsame := screenEntries_refused
          (refusesAll_of_pending (r := { r with pendingConfIndex := r.raftLog.lastIndex+i+1 })
            hpending es) h2
        rw [hsame]
        exact hpending

omit [Raftpb] in
/-- The quota refuses the entries before anything is done with them. -/
theorem appendEntry_refused {es : List Entry} (h : r.appendEntry es=.ok (r',false)) : r'=r := by
  rcases appendEntry_spec h with ⟨-,hr,-⟩ | ⟨hb,-⟩
  · exact hr
  · cases hb

/-- The points at which a leader drops a proposal. -/
theorem leaderProp_dropped (h : r.leaderProp m=.ok (r',some .errProposalDropped)) :
    (r'=r ∧ ((r.prs.progress.get? r.id).isSome=false ∨ r.leadTransferee≠noNode)) ∨
    (r.prs.progress.get? r.id).isSome=true ∧ r.leadTransferee=noNode ∧
      ∃ es, r.screenEntries 0 m.entries=.ok (r',es) := by
  unfold leaderProp at h
  split at h
  · cases h
  split at h
  · rename_i hnone
    cases h
    exact .inl ⟨rfl,.inl (by simpa using hnone)⟩
  rename_i hsome
  split at h
  · rename_i htransfer
    cases h
    exact .inl ⟨rfl,.inr htransfer⟩
  rename_i htransfer
  obtain ⟨⟨r1,es⟩,hscr,h⟩ := bind_eq_ok.mp h
  obtain ⟨⟨r2,accepted⟩,happ,h⟩ := bind_eq_ok.mp h
  cases accepted with
  | false =>
    cases h
    obtain rfl := appendEntry_refused happ
    refine .inr ⟨?_,not_not.mp htransfer,es,hscr⟩
    simpa [Option.isSome_iff_ne_none] using hsome
  | true =>
    obtain ⟨r3,_,h⟩ := bind_eq_ok.mp h
    cases h

theorem stepState_dropped (htype : m.type=.msgProp)
    (h : r.stepState m=.ok (r',some .errProposalDropped)) :
    (r.state=.stateLeader ∧ r.leaderProp m=.ok (r',some .errProposalDropped)) ∨
      r.state≠.stateLeader ∧ r'=r := by
  unfold stepState at h
  split at h
  · rename_i hs
    refine .inr ⟨by rw [hs]; nofun,?_⟩
    unfold stepFollower at h
    rw [htype] at h
    dsimp only at h
    split_ifs at h
    · cases h
      rfl
    · cases h
      rfl
    · obtain ⟨r1,_,h⟩ := bind_eq_ok.mp h
      cases h
  · rename_i hs
    refine .inr ⟨by rw [hs]; nofun,?_⟩
    unfold stepCandidate at h
    rw [htype] at h
    cases h
    rfl
  · rename_i hs
    refine .inr ⟨by rw [hs]; nofun,?_⟩
    unfold stepCandidate at h
    rw [htype] at h
    cases h
    rfl
  · rename_i hs
    refine .inl ⟨hs,?_⟩
    unfold stepLeader at h
    rw [htype] at h
    exact h

/-- A dropped proposal of the term that the node is in, or of none. -/
theorem stepState_untouched (htype : m.type=.msgProp)
    (h : r.stepState m=.ok (r',some .errProposalDropped)) (hterm : m.term≤r.term) :
    (r.Harmless m → r'=r) ∧
      (r.raftLog.applied≤r.raftLog.lastIndex → r.Untouched r' → r.Harmless m) := by
  rcases stepState_dropped htype h with ⟨hlead,h⟩ | ⟨hnot,rfl⟩
  · rcases leaderProp_dropped h with ⟨rfl,hearly⟩ | ⟨hsome,htransfer,es,hscr⟩
    · refine ⟨fun _ => rfl,fun _ _ => ⟨hterm,fun _ hs ht => ?_⟩⟩
      rcases hearly with hnone | hne
      · rw [hs] at hnone
        cases hnone
      · exact absurd ht hne
    · refine ⟨fun hh => screenEntries_refused (hh.2 hlead hsome htransfer) hscr,
        fun happlied hu => ⟨hterm,fun _ _ _ => ?_⟩⟩
      by_contra hnot
      obtain ⟨hlow,hhigh⟩ := screenEntries_pends happlied hnot hscr
      rw [hu.pendingConfIndex] at hhigh
      omega
  · exact ⟨fun _ => rfl,fun _ _ => ⟨hterm,fun hlead => absurd hlead hnot⟩⟩

/-- A dropped proposal leaves no trace exactly if it is harmless: a higher term in it is
taken over before it is dropped, and a change that the leader accepts becomes pending before
the quota refuses the entries. -/
theorem step_dropped (htype : m.type=.msgProp)
    (h : r.step m=.ok (r',some .errProposalDropped)) :
    (r.Harmless m → r'=r) ∧
      (r.raftLog.applied≤r.raftLog.lastIndex → r.Untouched r' → r.Harmless m) := by
  have hstep : ∀ r : Raft, r.stepType m=r.stepState m := by
    intro r
    unfold stepType
    rw [htype]
  unfold step at h
  split at h
  · rename_i hz
    rw [hstep] at h
    exact stepState_untouched htype h (hz.trans_le (Nat.zero_le _))
  split at h
  · rename_i hlt
    have hvote : r.ignoresVote m=false := by simp [ignoresVote,htype]
    have hkeep : keepsTerm m=false := by simp [keepsTerm,htype]
    rw [hvote,if_neg Bool.false_ne_true,hkeep,if_neg Bool.false_ne_true,hstep] at h
    refine ⟨fun hh => absurd hh.1 (Nat.not_le.mpr hlt),fun _ hu => ?_⟩
    rcases stepState_dropped htype h with ⟨hlead,-⟩ | ⟨-,rfl⟩
    · cases hlead
    · exact absurd hu.term (Nat.ne_of_gt hlt)
  split at h
  · obtain ⟨r1,_,h⟩ := bind_eq_ok.mp h
    cases h
  · rename_i hge hle
    rw [hstep] at h
    exact stepState_untouched htype h (Nat.not_lt.mp hge)

end

section

local instance proposalWire : Raftpb := Wire.small

/-- The only voter of a cluster, with a quota of 4 bytes for uncommitted entries. -/
def soloConfig : Config where
  id := 1
  electionTick := 10
  heartbeatTick := 1
  storage := ⟨{},{ confState := { voters := [1] } },[default],default_ne_nil⟩
  maxUncommittedEntriesSize := 4
  maxInflightMsgs := 256

def proposal (e : Entry) : Message := { type := .msgProp, toId := 1, fromId := 1, entries := [e] }

/-- The leader after a proposal that fills the quota. -/
def filled : Except Panic Raft := do
  let r ← newRaft soloConfig []
  let (r,_) ← r.step { type := .msgHup, toId := 1 }
  let (r,_) ← r.step (proposal { (default : Entry) with data := [0,0,0,0] })
  .ok r

/-- The change that adds node 2. -/
def addition : Entry := { (default : Entry) with
  type := .entryConfChange
  data := Wire.marshalConfChange { type := .addNode, nodeID := 2 } }

/-- The change is dropped, and all later ones are refused until index 3 is applied. A
proposal with a higher term ends the leader's term before it is dropped. -/
theorem step_dropped_pending : ∃ r r1 r2, filled=.ok r ∧ r.state=.stateLeader ∧
    r.step (proposal addition)=.ok (r1,some .errProposalDropped) ∧
    r.pendingConfIndex=0 ∧ r1.pendingConfIndex=3 ∧ ¬r.Untouched r1 ∧
    r.step { proposal addition with term := 2 }=.ok (r2,some .errProposalDropped) ∧
    r.term=1 ∧ r2.term=2 ∧ r2.state=.stateFollower := by
  obtain ⟨r,r1,r2,hr,hs,h1,hp,hp1,h2,ht⟩ : ∃ r r1 r2, filled=.ok r ∧ r.state=.stateLeader ∧
      r.step (proposal addition)=.ok (r1,some .errProposalDropped) ∧
      r.pendingConfIndex=0 ∧ r1.pendingConfIndex=3 ∧
      r.step { proposal addition with term := 2 }=.ok (r2,some .errProposalDropped) ∧
      r.term=1 ∧ r2.term=2 ∧ r2.state=.stateFollower :=
    ⟨_,_,_,rfl,by decide +kernel,rfl,by decide +kernel,by decide +kernel,rfl,by decide +kernel,
      by decide +kernel,by decide +kernel⟩
  refine ⟨r,r1,r2,hr,hs,h1,hp,hp1,fun hu => ?_,h2,ht⟩
  have heq := hu.pendingConfIndex
  rw [hp,hp1] at heq
  cases heq

/-- A normal entry beyond the quota is dropped without a trace. -/
theorem step_dropped_normal : ∃ r r', filled=.ok r ∧
    r.step (proposal { (default : Entry) with data := [0] })=.ok (r',some .errProposalDropped) ∧
    r'=r := by
  obtain ⟨r,r',hr,h,ht⟩ : ∃ r r', filled=.ok r ∧
      r.step (proposal { (default : Entry) with data := [0] })=
        .ok (r',some .errProposalDropped) ∧ r.term=1 :=
    ⟨_,_,rfl,rfl,by decide +kernel⟩
  refine ⟨r,r',hr,h,(step_dropped rfl h).1 ⟨Nat.zero_le _,fun _ _ _ e he cc hcc => ?_⟩⟩
  rw [List.mem_singleton.mp he] at hcc
  cases hcc

end

end Raft

end RaftTesting
