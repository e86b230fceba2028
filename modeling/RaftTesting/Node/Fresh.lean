import RaftTesting.Node.Touch

namespace RaftTesting

/-- Term and commit index do not go back, nor does a vote within its term. -/
structure HardState.Le (H K : HardState) : Prop where
  term : H.term≤K.term
  commit : H.commit≤K.commit
  vote : K.term=H.term → H.vote≠noNode → K.vote=H.vote

namespace HardState.Le

variable {H K L : HardState}

theorem refl (H : HardState) : H.Le H := ⟨le_rfl,le_rfl,fun _ _ => rfl⟩

theorem trans (h : H.Le K) (h' : K.Le L) : H.Le L where
  term := h.term.trans h'.term
  commit := h.commit.trans h'.commit
  vote := by
    intro ht hv
    have hmid : K.term=H.term := le_antisymm (ht ▸ h'.term) h.term
    have hvote : K.vote=H.vote := h.vote hmid hv
    rw [← hvote]
    exact h'.vote (ht.trans hmid.symm) (hvote ▸ hv)

theorem antisymm (h : H.Le K) (h' : K.Le H) : H=K := by
  have ht : H.term=K.term := le_antisymm h.term h'.term
  have hv : H.vote=K.vote := by
    by_cases hne : H.vote=noNode
    · by_cases hne' : K.vote=noNode
      · exact hne.trans hne'.symm
      · exact h'.vote ht hne'
    · exact (h.vote ht.symm hne).symm
  obtain ⟨t,v,c⟩ := H
  obtain ⟨t',v',c'⟩ := K
  obtain rfl : t=t' := ht
  obtain rfl : v=v' := hv
  obtain rfl : c=c' := le_antisymm h.commit h'.commit
  rfl

/-- Nothing comes back once it is left behind. -/
theorem ne_of_left (h : H.Le K) (h' : K.Le L) (hne : H≠K) : H≠L := by
  rintro rfl
  exact hne (h.antisymm h')

theorem ne_of_right (h : H.Le K) (h' : K.Le L) (hne : K≠L) : H≠L := by
  rintro rfl
  exact hne (h'.antisymm h)

theorem zero (H : HardState) : Le {} H :=
  ⟨Nat.zero_le _,Nat.zero_le _,fun _ hne => absurd rfl hne⟩

end HardState.Le

/-- The soft states that a node can go through in one term without sending anything stand in
this order: a candidate wins, a leader steps down, and who does not lead finds out who does. -/
def SoftState.rank : SoftState → Nat
  | ⟨_,.stateCandidate⟩ => 0
  | ⟨_,.stateLeader⟩ => 1
  | ⟨_,.statePreCandidate⟩ => 2
  | ⟨lead,.stateFollower⟩ => if lead=noNode then 3 else 4

/-- The log has something for the next Ready. -/
def RaftLog.Loud (l : RaftLog) : Prop :=
  l.hasPendingSnapshot=true ∨ l.unstableEntries≠[] ∨ l.hasNextEnts=true

namespace RaftLog

variable {l l' : RaftLog}

theorem Loud.commit (h : l.Loud) {k : Nat} (hk : l.committed≤k) :
    Loud { l with committed := k } := by
  rcases h with h | h | h
  · exact .inl h
  · exact .inr (.inl h)
  · refine .inr (.inr (decide_eq_true ?_))
    have hlt : max (l.applied+1) l.firstIndex<l.committed+1 := of_decide_eq_true h
    exact hlt.trans_le (Nat.succ_le_succ hk)

theorem truncateAndAppend_entries {u u' : Unstable} {e : Entry} {es : List Entry}
    (h : u.truncateAndAppend e es=.ok u') : u'.entries≠[] := by
  unfold Unstable.truncateAndAppend at h
  dsimp only at h
  split_ifs at h
  · cases h
    exact List.append_ne_nil_of_right_ne_nil _ (List.cons_ne_nil _ _)
  · cases h
    exact List.cons_ne_nil _ _
  · obtain ⟨kept,-,h⟩ := bind_eq_ok.mp h
    cases h
    exact List.append_ne_nil_of_right_ne_nil _ (List.cons_ne_nil _ _)

theorem Loud.append (h : l.Loud) {es : List Entry} (ha : l.append es=.ok l') : l'.Loud := by
  cases es with
  | nil =>
    cases ha
    exact h
  | cons e es =>
    unfold RaftLog.append at ha
    dsimp only at ha
    split at ha
    · cases ha
    · obtain ⟨u,hu,ha⟩ := bind_eq_ok.mp ha
      cases ha
      exact .inr (.inl (truncateAndAppend_entries hu))

theorem Loud.maybeAppend (h : l.Loud) {i t k last : Nat} {es : List Entry}
    (ha : l.maybeAppend i t k es=.ok (l',some last)) : l'.Loud := by
  obtain ⟨-,-,l1,h1,rfl⟩ := maybeAppend_spec ha
  have hl1 : l1.Loud := by
    unfold appendFrom at h1
    split_ifs at h1
    · cases h1
      exact h
    · exact h.append h1
  have hc := l1.committed_le_commitTo (min k last)
  rw [commitTo_fst] at hc ⊢
  exact hl1.commit hc

theorem restore_loud {s : Snapshot} (h : l.committed<s.index) : (l.restore s).Loud := by
  refine .inl ?_
  have hne : s.index≠0 := Nat.ne_of_gt (Nat.zero_lt_of_lt h)
  simpa [restore,Unstable.restore,hasPendingSnapshot,isEmptySnap] using hne

end RaftLog

/-- Leaders speak alone for their term. -/
def OneVoice (M : Message → Prop) : Prop := ∀ m m', M m → M m' → m.type.leads=true →
  m'.type.leads=true → m.term=m'.term → m.fromId=m'.fromId

namespace Raft

/-- What the second node owes to the next Ready, it owes it for what happened since the first. -/
structure Onward (r r' : Raft) : Prop where
  hard : r.hardState.Le r'.hardState
  msgs : r.msgs≠[] → r'.msgs≠[]
  readStates : r.readStates≠[] → r'.readStates≠[]
  soft : r'.msgs≠[] ∨ r.hardState≠r'.hardState ∨ r.softState=r'.softState ∨
    r.softState.rank<r'.softState.rank

namespace Onward

variable {r r' r'' : Raft}

/-- Only what is not compared has changed. -/
theorem same (ht : r'.term=r.term) (hv : r'.vote=r.vote)
    (hc : r'.raftLog.committed=r.raftLog.committed) (hm : r'.msgs=r.msgs)
    (hr : r'.readStates=r.readStates) (hl : r'.lead=r.lead) (hs : r'.state=r.state) :
    Onward r r' where
  hard := by
    unfold hardState
    rw [ht,hv,hc]
    exact .refl _
  msgs := fun h => hm ▸ h
  readStates := fun h => hr ▸ h
  soft := by
    unfold softState
    rw [hl,hs]
    exact .inr (.inr (.inl rfl))

theorem refl (r : Raft) : Onward r r := same rfl rfl rfl rfl rfl rfl rfl

theorem trans (h : Onward r r') (h' : Onward r' r'') : Onward r r'' where
  hard := h.hard.trans h'.hard
  msgs := fun hm => h'.msgs (h.msgs hm)
  readStates := fun hr => h'.readStates (h.readStates hr)
  soft := by
    rcases h.soft with hm | hne | heq | hlt
    · exact .inl (h'.msgs hm)
    · exact .inr (.inl (h.hard.ne_of_left h'.hard hne))
    all_goals rcases h'.soft with hm' | hne' | heq' | hlt'
    · exact .inl hm'
    · exact .inr (.inl (h.hard.ne_of_right h'.hard hne'))
    · exact .inr (.inr (.inl (heq.trans heq')))
    · exact .inr (.inr (.inr (heq ▸ hlt')))
    · exact .inl hm'
    · exact .inr (.inl (h.hard.ne_of_right h'.hard hne'))
    · exact .inr (.inr (.inr (heq' ▸ hlt)))
    · exact .inr (.inr (.inr (hlt.trans hlt')))

end Onward

/-- A follower has the leader that it knows from a message of its term. -/
def Follows (M : Message → Prop) (r : Raft) : Prop :=
  r.state=.stateFollower → Vouched M r.term r.lead

section

variable [Raftpb] {M : Message → Prop} {r r' : Raft}

theorem Post.onward (h : Post M r r') : Onward r r' := by
  cases h with
  | say =>
    refine ⟨.refl _,fun h => ?_,fun h => h,.inr (.inr (.inl rfl))⟩
    exact List.append_ne_nil_of_left_ne_nil h _
  | track => exact .same rfl rfl rfl rfl rfl rfl rfl
  | reads =>
    refine ⟨.refl _,fun h => h,fun h => ?_,.inr (.inr (.inl rfl))⟩
    exact List.append_ne_nil_of_left_ne_nil h _

omit [Raftpb] in
/-- A term is taken over, or kept with the vote in it. -/
theorem hardState_le_reset {term : Nat} (h : r.term≤term) (lead : Nat) (s : StateType) :
    r.hardState.Le { r.reset term with lead := lead, state := s }.hardState :=
  ⟨h,le_rfl,fun ht _ => if_neg (not_not.mpr (Eq.symm ht))⟩

theorem Touch.onward (hM : OneVoice M) (hr : r.Follows M) (h : Touch M r r') : Onward r r' := by
  cases h with
  | post h => exact h.onward
  | @follow term lead hle _ =>
    have hterm : r.term≤term := hle.elim (fun h => h.1.le) (fun h => h.1.le)
    refine ⟨hardState_le_reset hterm _ _,fun h => h,fun h => h,?_⟩
    rcases hle with ⟨hlt,-⟩ | ⟨rfl,hne⟩
    · exact .inr (.inl (fun heq => Nat.ne_of_lt hlt (congrArg HardState.term heq)))
    · refine .inr (.inr (.inr ?_))
      have hrank : 3≤(r.becomeFollower r.term lead).softState.rank := by
        change 3 ≤ if lead=noNode then 3 else 4
        split_ifs <;> decide
      have hlow : r.softState.rank<3 := by
        unfold softState
        cases hs : r.state with
        | stateFollower => exact absurd hs hne
        | stateCandidate => exact Nat.zero_lt_succ 2
        | stateLeader => exact (by decide : 1<3)
        | statePreCandidate => exact (by decide : 2<3)
      exact hlow.trans_le hrank
  | preStand _ hms _ =>
    have hne : ∀ ms : List Message, ms++_≠[] :=
      fun ms => List.append_ne_nil_of_right_ne_nil ms hms
    exact ⟨.refl _,fun _ => hne _,fun h => h,.inl (hne _)⟩
  | stand =>
    have hlt : r.term<r.term+1 := Nat.lt_succ_self _
    refine ⟨⟨hlt.le,le_rfl,fun ht _ => ?_⟩,fun h => h,fun h => h,.inr (.inl fun heq => ?_)⟩
    · exact absurd ht hlt.ne'
    · exact hlt.ne (congrArg HardState.term heq)
  | rise hs =>
    refine ⟨hardState_le_reset le_rfl _ _,fun h => h,fun h => h,.inr (.inr (.inr ?_))⟩
    unfold softState
    rw [hs]
    exact Nat.zero_lt_one
  | grow _ _ hl =>
    have hc := congrArg RaftLog.committed (RaftLog.append_spec hl)
    exact .same rfl rfl hc rfl rfl rfl rfl
  | commit hk => exact ⟨⟨le_rfl,hk,fun _ _ => rfl⟩,fun h => h,fun h => h,.inr (.inr (.inl rfl))⟩
  | store _ _ _ hl =>
    exact ⟨⟨le_rfl,RaftLog.committed_le_maybeAppend hl,fun _ _ => rfl⟩,fun h => h,fun h => h,
      .inr (.inr (.inl rfl))⟩
  | restore _ _ _ _ _ hlt =>
    exact ⟨⟨le_rfl,hlt.le,fun _ _ => rfl⟩,fun h => h,fun h => h,.inr (.inr (.inl rfl))⟩
  | vote _ _ hcan =>
    refine ⟨⟨le_rfl,le_rfl,fun _ hne => ?_⟩,fun h => h,fun h => h,.inr (.inr (.inl rfl))⟩
    rcases hcan with hsame | ⟨hnone,-⟩
    · exact hsame.symm
    · exact absurd hnone hne
  | @hear m hm hl ht hs =>
    refine ⟨.refl _,fun h => h,fun h => h,.inr (.inr ?_)⟩
    unfold softState hearLeader
    dsimp only
    rw [hs]
    rcases hr hs with hnone | ⟨m0,hm0,hl0,ht0,hlead⟩
    · by_cases hfrom : m.fromId=noNode
      · exact .inl (by rw [hnone,hfrom])
      · refine .inr ?_
        change (if r.lead=noNode then 3 else 4) < if m.fromId=noNode then 3 else 4
        rw [if_pos hnone,if_neg hfrom]
        exact Nat.lt_succ_self 3
    · exact .inl (by rw [← hlead,hM m0 m hm0 hm hl0 hl (ht0.trans ht.symm)])
  | poll | pend | release | aim | abort => exact .same rfl rfl rfl rfl rfl rfl rfl

theorem Touch.follows (hr : r.Follows M) (h : Touch M r r') : r'.Follows M := by
  cases h with
  | post h =>
    rw [h.same]
    exact hr
  | follow _ hv => exact fun _ => hv
  | preStand | stand | rise => exact fun hs => by cases hs
  | hear hm hl ht _ => exact fun _ => .inr ⟨_,hm,hl,ht,rfl⟩
  | poll | pend | grow | release | commit | store | vote | restore | aim | abort => exact hr

theorem Touch.loud (hl : r.raftLog.Loud) (h : Touch M r r') : r'.raftLog.Loud := by
  cases h with
  | post h =>
    rw [h.same]
    exact hl
  | grow _ _ ha => exact hl.append ha
  | commit hk => exact hl.commit hk
  | store _ _ _ ha => exact hl.maybeAppend ha
  | restore _ _ _ _ _ hlt => exact RaftLog.restore_loud hlt
  | follow | preStand | stand | poll | rise | pend | release | hear | vote | aim | abort => exact hl

/-- Nothing is lost for the next Ready on the way from one node to the other. -/
structure Retains (M : Message → Prop) (r r' : Raft) : Prop where
  onward : Onward r r'
  follows : r'.Follows M
  loud : r.raftLog.Loud → r'.raftLog.Loud

theorem TickTouches.retains (hM : OneVoice M) (hr : r.Follows M) (h : TickTouches M r r') :
    Retains M r r' := by
  induction h with
  | refl => exact ⟨.refl r,hr,fun h => h⟩
  | tail _ h ih =>
    cases h with
    | touch h => exact ⟨ih.onward.trans (h.onward hM ih.follows),h.follows ih.follows,
        fun hl => h.loud (ih.loud hl)⟩
    | clock => exact ⟨ih.onward.trans (.same rfl rfl rfl rfl rfl rfl rfl),ih.follows,ih.loud⟩

theorem Touches.retains (hM : OneVoice M) (hr : r.Follows M) (h : Touches M r r') : Retains M r r' :=
  h.tick.retains hM hr

theorem applyConfChange_retains {cc : ConfChangeV2} {cs : ConfState} (hM : OneVoice M)
    (hr : r.Follows M) (h : r.applyConfChange cc=.ok (r',cs)) : Retains M r r' := by
  obtain ⟨t,-,h⟩ := applyConfChange_touches (S := M) h
  have hinst : Onward r (r.installConfig t) := .same rfl rfl rfl rfl rfl rfl rfl
  have hk := Touches.retains (r := r.installConfig t) hM hr h
  exact ⟨hinst.trans hk.onward,hk.follows,hk.loud⟩

/-- Advance empties the log, but all else stays. -/
theorem advance_onward {rd : Ready} (hM : OneVoice M) (hr : r.Follows M)
    (h : r.advance rd=.ok r') : Onward r r' ∧ r'.Follows M := by
  obtain ⟨l,r1,hl,h1,rfl⟩ := advance_touches h
  have hc : l.committed=r.raftLog.committed := by rw [hl.1]
  have hone : Onward r r1 ∧ r1.Follows M := by
    rcases h1 with h1 | ⟨-,-,u,l',hl',h1⟩
    · rw [h1]
      exact ⟨.same rfl rfl hc rfl rfl rfl rfl,hr⟩
    · have hc' : l'.committed=r.raftLog.committed :=
        (congrArg RaftLog.committed (RaftLog.append_spec hl')).trans hc
      have hk := Touches.retains (r := { r with raftLog := l', uncommittedSize := u }) hM hr (h1 M)
      have hlog : Onward r { r with raftLog := l', uncommittedSize := u } :=
        .same rfl rfl hc' rfl rfl rfl rfl
      exact ⟨hlog.trans hk.onward,hk.follows⟩
  have hstab := congrArg RaftLog.committed (rd.stabilize_eq r1.raftLog)
  exact ⟨hone.1.trans (.same rfl rfl hstab rfl rfl rfl rfl),hone.2⟩

end

/-- A node since a Ready with these states was taken from it: whatever has changed, the next
Ready will tell of it. -/
structure Since (S : SoftState) (H : HardState) (r : Raft) : Prop where
  hard : H.Le r.hardState
  soft : r.msgs≠[] ∨ r.readStates≠[] ∨ H≠r.hardState ∨ S=r.softState ∨ S.rank<r.softState.rank

namespace Since

variable {S : SoftState} {H : HardState} {r r' : Raft}

theorem onward (h : r.Since S H) (ho : Onward r r') : r'.Since S H where
  hard := h.hard.trans ho.hard
  soft := by
    rcases h.soft with hm | hr | hne | heq | hlt
    · exact .inl (ho.msgs hm)
    · exact .inr (.inl (ho.readStates hr))
    · exact .inr (.inr (.inl (h.hard.ne_of_left ho.hard hne)))
    all_goals rcases ho.soft with hm' | hne' | heq' | hlt'
    · exact .inl hm'
    · exact .inr (.inr (.inl (h.hard.ne_of_right ho.hard hne')))
    · exact .inr (.inr (.inr (.inl (heq.trans heq'))))
    · exact .inr (.inr (.inr (.inr (heq ▸ hlt'))))
    · exact .inl hm'
    · exact .inr (.inr (.inl (h.hard.ne_of_right ho.hard hne')))
    · exact .inr (.inr (.inr (.inr (heq' ▸ hlt))))
    · exact .inr (.inr (.inr (.inr (hlt.trans hlt'))))

end Since

end Raft

namespace RawNode

variable {rn : RawNode}

/-- HasReady, with an order in place of the comparison of the soft states. -/
theorem hasReady_iff (h : rn.raft.Since rn.prevSoftSt rn.prevHardSt) : rn.hasReady=true ↔
    rn.raft.msgs≠[] ∨ rn.raft.readStates≠[] ∨ rn.prevHardSt≠rn.raft.hardState ∨
      rn.prevSoftSt.rank<rn.raft.softState.rank ∨ rn.raft.raftLog.Loud := by
  have hempty : rn.prevHardSt≠rn.raft.hardState → rn.raft.hardState≠{} := by
    intro hne hzero
    refine hne (h.hard.antisymm ?_)
    rw [hzero]
    exact .zero _
  have hrank : rn.prevSoftSt.rank<rn.raft.softState.rank → rn.raft.softState≠rn.prevSoftSt :=
    fun hlt heq => hlt.ne (by rw [heq])
  have hsoft := h.soft
  simp only [hasReady,RaftLog.Loud,Bool.or_eq_true,Bool.and_eq_true,decide_eq_true_eq,
    Bool.not_eq_true',List.isEmpty_eq_false_iff]
  constructor
  · rintro ((((hs | hh) | hl) | (hm | hu) | hn) | hr)
    · rcases hsoft with hm | hr | hne | heq | hlt
      · exact .inl hm
      · exact .inr (.inl hr)
      · exact .inr (.inr (.inl hne))
      · exact absurd heq.symm hs
      · exact .inr (.inr (.inr (.inl hlt)))
    · exact .inr (.inr (.inl hh.2.symm))
    · exact .inr (.inr (.inr (.inr (.inl hl))))
    · exact .inl hm
    · exact .inr (.inr (.inr (.inr (.inr (.inl hu)))))
    · exact .inr (.inr (.inr (.inr (.inr (.inr hn)))))
    · exact .inr (.inl hr)
  · rintro (hm | hr | hne | hlt | hl | hu | hn)
    · exact .inl (.inr (.inl (.inl hm)))
    · exact .inr hr
    · exact .inl (.inl (.inl (.inr ⟨hempty hne,hne.symm⟩)))
    · exact .inl (.inl (.inl (.inl (hrank hlt))))
    · exact .inl (.inl (.inr hl))
    · exact .inl (.inr (.inl (.inr hu)))
    · exact .inl (.inr (.inr hn))

/-- A node that has a Ready retains one until it is taken. -/
theorem hasReady_stays {M : Message → Prop} {r' : Raft}
    (h : rn.raft.Since rn.prevSoftSt rn.prevHardSt) (hk : Raft.Retains M rn.raft r')
    (hready : rn.hasReady=true) : { rn with raft := r' }.hasReady=true := by
  have hnext := h.onward hk.onward
  refine (@hasReady_iff { rn with raft := r' } hnext).mpr ?_
  rcases (hasReady_iff h).mp hready with hm | hr | hne | hlt | hl
  · exact .inl (hk.onward.msgs hm)
  · exact .inr (.inl (hk.onward.readStates hr))
  · exact .inr (.inr (.inl (h.hard.ne_of_left hk.onward.hard hne)))
  · rcases hk.onward.soft with hm' | hne' | heq' | hlt'
    · exact .inl hm'
    · exact .inr (.inr (.inl (h.hard.ne_of_right hk.onward.hard hne')))
    · exact .inr (.inr (.inr (.inl (heq' ▸ hlt))))
    · exact .inr (.inr (.inr (.inl (hlt.trans hlt'))))
  · exact .inr (.inr (.inr (.inr (hk.loud hl))))

end RawNode

end RaftTesting
