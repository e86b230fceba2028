import RaftTesting.Transition.Step

namespace RaftTesting

namespace Core

def install (c : Core) (t : Tracked) : Core :=
  { c with prs := { c.prs with config := t.cfg, progress := t.prs } }

/-- The moves of a node together with those of advance: the applied cursor moves, and a
joint configuration is left. -/
inductive HostMove [Raftpb] (S : Message → Prop) : Core → Core → Prop
  | move {c c'} : Move S c c' → HostMove S c c'
  | applied {c l n} : c.raftLog.appliedTo n=.ok l → HostMove S c (c.setLog l)
  | leave {c l pr} : c.state=.stateLeader → c.pendingConfIndex≤c.raftLog.applied →
      c.raftLog.append (Raft.stampEntries c.term c.raftLog.lastIndex [Raft.autoLeaveEntry])=.ok l →
      c.prs.progress.get? c.id=some pr → HostMove S c { (c.setLog l).setProgress c.id
        (pr.maybeUpdate l.lastIndex).1 with pendingConfIndex := l.lastIndex }

abbrev HostMoves [Raftpb] (S : Message → Prop) : Core → Core → Prop :=
  Relation.ReflTransGen (HostMove S)

theorem Moves.host [Raftpb] {S : Message → Prop} {c c' : Core} (h : Moves S c c') :
    HostMoves S c c' :=
  Relation.ReflTransGen.mono (fun _ _ h => HostMove.move h) _ _ h

end Core

namespace Raft

open RaftTesting.Core

section

variable [Raftpb] {T : Prop} {S : Message → Prop} {r r' : Raft}

theorem switchLeader_stepped (hlead : r.state=.stateLeader) (h : r.switchLeader=.ok r') :
    Stepped T S r r' := by
  obtain ⟨⟨r1,committed⟩,h1,h⟩ := bind_eq_ok.mp h
  obtain ⟨r2,h2,h⟩ := bind_eq_ok.mp h
  have hm : Handled T S r r1 := maybeCommit_handled hlead h1
  have hl := hm.state.trans hlead
  have hs : Sent T S r1 r2 := by
    split at h2
    · exact bcastAppend_sent hl h2
    · exact probeAll_sent hl h2
  refine hm.stepped.trans (hs.stepped.trans ?_)
  split at h
  · cases h
    exact ⟨fun _ => .refl,.single .abort⟩
  · cases h
    exact .refl _

theorem switchToConfig_stepped {t : Tracked} {cs : ConfState}
    (h : r.switchToConfig t=.ok (r',cs)) : Stepped T S (r.installConfig t) r' := by
  unfold switchToConfig at h
  dsimp only at h
  split at h
  · cases h
    exact .refl _
  · split at h
    · cases h
      exact .refl _
    · rename_i hlead
      obtain ⟨r1,h1,h⟩ := bind_eq_ok.mp h
      cases h
      refine switchLeader_stepped ?_ h1
      by_contra hne
      exact hlead (.inl hne)

/-- Applying a configuration change installs the new configuration first. -/
theorem applyConfChange_stepped {cc : ConfChangeV2} {cs : ConfState}
    (h : r.applyConfChange cc=.ok (r',cs)) :
    ∃ t, Changer.change ⟨r.prs,r.raftLog.lastIndex⟩ cc=.ok t ∧
      Stepped T S (r.installConfig t) r' := by
  unfold applyConfChange at h
  split at h
  · cases h
  · rename_i t ht
    exact ⟨t,ht,switchToConfig_stepped h⟩

theorem applyConfChange_moves {cc : ConfChangeV2} {cs : ConfState}
    (h : r.applyConfChange cc=.ok (r',cs)) :
    ∃ t, Changer.change ⟨r.prs,r.raftLog.lastIndex⟩ cc=.ok t ∧
      Moves S (r.core.install t) r'.core := by
  obtain ⟨t,ht,hm⟩ := applyConfChange_stepped (S := S) h
  exact ⟨t,ht,hm.moves⟩

theorem applyConfChange_touches {cc : ConfChangeV2} {cs : ConfState}
    (h : r.applyConfChange cc=.ok (r',cs)) :
    ∃ t, Changer.change ⟨r.prs,r.raftLog.lastIndex⟩ cc=.ok t ∧
      Touches S (r.installConfig t) r' := by
  obtain ⟨t,ht,hm⟩ := applyConfChange_stepped (T := True) (S := S) h
  exact ⟨t,ht,hm.node⟩

theorem autoLeave_moves (hlead : r.state=.stateLeader)
    (hp : r.pendingConfIndex≤r.raftLog.applied) (h : r.autoLeave=.ok r') :
    HostMoves S r.core r'.core := by
  obtain ⟨⟨r1,accepted⟩,happ,h⟩ := bind_eq_ok.mp h
  rcases appendEntry_spec happ with ⟨rfl,-⟩ | ⟨rfl,-,l,pr,changed,hl,hget,hc⟩
  · cases h
  · cases h
    have hleave : HostMove S r.core _ := .leave hlead hp hl hget
    refine .head hleave (Moves.host ?_)
    -- committing changes neither the entries nor the pending index
    obtain ⟨⟨l',changed⟩,hl',hc⟩ := bind_eq_ok.mp hc
    cases hc
    rcases RaftLog.maybeCommit_spec hl' with ⟨rfl,rfl⟩ | ⟨rfl,_,_,hl''⟩
    · exact .refl
    · have hlast : l'.lastIndex=l.lastIndex := by
        rw [hl'',RaftLog.commitTo_fst]
        rfl
      dsimp only [setLog]
      rw [hlast]
      exact .single (.commit hlead hl')

theorem advanceApplied_moves {n : Nat} (h : r.advanceApplied n=.ok r') :
    HostMoves S r.core r'.core := by
  unfold advanceApplied at h
  split at h
  · cases h
    exact .refl
  · rename_i hn
    obtain ⟨l,hl,h⟩ := bind_eq_ok.mp h
    refine .head (.applied hl) ?_
    dsimp only at h
    split at h
    · rename_i hleave
      have happlied : l.applied=n := by
        rcases RaftLog.appliedTo_spec hl with ⟨hz,-⟩ | ⟨-,-,-,rfl⟩
        · exact absurd hz hn
        · rfl
      exact autoLeave_moves hleave.2.2.2 (happlied ▸ hleave.2.2.1) h
    · cases h
      exact .refl

/-- Advance first moves the applied cursor, then the stable ones. -/
theorem advance_moves {rd : Ready} (h : r.advance rd=.ok r') : ∃ c, HostMoves S r.core c ∧
    r'.core=c.setLog (rd.stabilize c.raftLog) := by
  obtain ⟨r1,h1,h⟩ := bind_eq_ok.mp h
  cases h
  exact ⟨r1.core,advanceApplied_moves (r := r.reduceUncommittedSize rd.committedEntries) h1,rfl⟩

/-- Advance moves the applied cursor, leaves a joint configuration if it is told to, and moves
the stable cursors. -/
theorem advance_touches {rd : Ready} (h : r.advance rd=.ok r') : ∃ l r1,
    (l={ r.raftLog with applied := l.applied } ∧ r.raftLog.applied≤l.applied) ∧
    (r1={ r with raftLog := l, uncommittedSize := r1.uncommittedSize } ∨
      r.state=.stateLeader ∧ r.prs.config.autoLeave=true ∧ ∃ u l',
        l.append (stampEntries r.term l.lastIndex [autoLeaveEntry])=.ok l' ∧
        ∀ M, Touches M { r with raftLog := l', uncommittedSize := u } r1) ∧
    r'=r1.setLog (rd.stabilize r1.raftLog) := by
  obtain ⟨r1,h1,h⟩ := bind_eq_ok.mp h
  cases h
  unfold advanceApplied at h1
  split at h1
  · cases h1
    exact ⟨r.raftLog,_,⟨rfl,le_rfl⟩,.inl rfl,rfl⟩
  · obtain ⟨l,hl,h1⟩ := bind_eq_ok.mp h1
    replace hl : l={ r.raftLog with applied := l.applied } ∧ r.raftLog.applied≤l.applied := by
      rcases RaftLog.appliedTo_spec hl with ⟨-,rfl⟩ | ⟨-,hle,-,rfl⟩
      · exact ⟨rfl,le_rfl⟩
      · exact ⟨rfl,hle⟩
    dsimp only at h1
    split at h1
    · rename_i hleave
      obtain ⟨⟨r2,accepted⟩,happ,h1⟩ := bind_eq_ok.mp h1
      rcases appendEntry_spec happ with ⟨rfl,-⟩ | ⟨rfl,-,l',pr,changed,hl',hget,hc⟩
      · cases h1
      · cases h1
        have hup : (pr.maybeUpdate l'.lastIndex).1.isLearner=pr.isLearner ∧
            (pr.maybeUpdate l'.lastIndex).1.recentActive=pr.recentActive := by
          rw [Progress.maybeUpdate_fst]
          exact ⟨rfl,rfl⟩
        refine ⟨l,_,hl,.inr ⟨hleave.2.2.2,hleave.1,
          (((r.reduceUncommittedSize rd.committedEntries).setLog l).grown
            [autoLeaveEntry] l').uncommittedSize,l',hl',fun M => ?_⟩,rfl⟩
        have hm : Touches M _ r2 := Tends.touches
          (maybeCommit_handled (T := True) (S := M) (by exact hleave.2.2.2) hc).node
        refine .head (.post (setProgress_post _ hget hup.1 (fun ha => .inl ?_))) (hm.tail (.pend _))
        rw [← hup.2]
        exact ha
    · cases h1
      exact ⟨l,_,hl,.inl rfl,rfl⟩

end

end Raft

end RaftTesting
