import RaftTesting.ConfChange.Formed
import RaftTesting.Node.Start
import RaftTesting.Transition.Log

namespace RaftTesting

namespace Tracked

variable {t : Tracked}

/-- The progress of a member is written. -/
theorem Alike.insert {id : Nat} {pr pr' : Progress} (hget : t.prs.get? id=some pr)
    (hl : pr'.isLearner=pr.isLearner) : Alike t ⟨t.cfg,t.prs.insert id pr'⟩ := by
  refine ⟨rfl,fun id' => ?_⟩
  change ((t.prs.insert id pr').get? id').map _=_
  rw [SortedMap.get?_insert]
  split_ifs with he
  · rw [he,hget]
    exact congrArg some hl
  · rfl

theorem Alike.trans {t' t'' : Tracked} (h : Alike t t') (h' : Alike t' t'') : Alike t t'' :=
  ⟨h'.cfg.trans h.cfg,fun id => (h'.tracked id).trans (h.tracked id)⟩

end Tracked

namespace Core

def tracked (c : Core) : Tracked := ⟨c.prs.config,c.prs.progress⟩

/-- The configuration of a node is as the Changer leaves it, and a leader has voters. -/
structure Formed (c : Core) : Prop where
  formed : c.tracked.Formed
  voters : c.state=.stateLeader → MajorityConfig.len c.prs.config.voters.incoming≠0

variable {c c' : Core}

theorem Formed.alike {d : Core} (h : c.Formed) (ha : Tracked.Alike c.tracked d.tracked)
    (hs : d.state=.stateLeader → c.state=.stateLeader ∨ ∃ id pr,
      d.prs.progress.get? id=some pr) : d.Formed := by
  have hformed := h.formed.alike ha
  have hcfg : d.prs.config=c.prs.config := ha.cfg
  refine ⟨hformed,fun hl => ?_⟩
  rcases hs hl with hl | ⟨id,pr,hget⟩
  · rw [hcfg]
    exact h.voters hl
  · refine hformed.voters.resolve_right (fun hnone => ?_)
    have htracked := hnone id
    change (d.prs.progress.get? id).map _=none at htracked
    rw [hget] at htracked
    cases htracked

theorem maybeUpdate_learner (pr : Progress) (n : Nat) :
    (pr.maybeUpdate n).1.isLearner=pr.isLearner := by rw [Progress.maybeUpdate_fst]

variable [Raftpb] {S : Message → Prop}

/-- Only a snapshot replaces the configuration of a node. -/
theorem Move.formed (hS : ∀ m, S m → m.type≠.msgSnap) (h : c.Formed) (hm : Move S c c') :
    c'.Formed := by
  have hrefl : Tracked.Alike c.tracked c.tracked := ⟨rfl,fun _ => rfl⟩
  cases hm with
  | send hs =>
    have hframe := hs.frame
    exact h.alike ⟨hframe.config,hframe.tracked⟩ (fun hl => .inl (hframe.state.symm.trans hl))
  | @follow term => exact h.alike ⟨rfl,reset_tracked c term⟩ nofun
  | preStand => exact h.alike hrefl nofun
  | stand => exact h.alike ⟨rfl,reset_tracked c (c.term+1)⟩ nofun
  | @poll id v =>
    have hsame := c.prs.recordVote_frame id v
    refine h.alike ⟨hsame.1,fun id' => ?_⟩ .inl
    change ((c.prs.recordVote id v).progress.get? id').map _=_
    rw [hsame.2]
    rfl
  | @elect pr hcand _ hget =>
    have hreset : Tracked.Alike c.tracked (c.reset c.term).tracked := ⟨rfl,reset_tracked c c.term⟩
    have hset : Tracked.Alike (c.reset c.term).tracked
        ((c.reset c.term).setProgress c.id pr.becomeReplicate).tracked := .insert hget rfl
    exact h.alike (hreset.trans hset) (fun _ => .inr ⟨c.id,_,SortedMap.get?_insert_self _ _ _⟩)
  | append _ _ _ hget => exact h.alike (.insert hget (maybeUpdate_learner _ _)) .inl
  | pend | commit | vote | accept | stale | beat | skip | forward => exact h.alike hrefl .inl
  | ack _ _ _ _ _ hget hd =>
    exact h.alike (.insert hget (hd.isLearner.trans (maybeUpdate_learner _ _))) .inl
  | restore prs hm ht => exact absurd ht (hS _ hm)

theorem HostMoves.formed (hS : ∀ m, S m → m.type≠.msgSnap) (h : c.Formed) (hm : HostMoves S c c') :
    c'.Formed := by
  induction hm with
  | refl => exact h
  | tail _ hm ih =>
    cases hm with
    | move hm => exact hm.formed hS ih
    | applied => exact ih.alike ⟨rfl,fun _ => rfl⟩ .inl
    | leave _ _ _ hget => exact ih.alike (.insert hget (maybeUpdate_learner _ _)) .inl

theorem Moves.formed (hS : ∀ m, S m → m.type≠.msgSnap) (h : c.Formed) (hm : Moves S c c') :
    c'.Formed := HostMoves.formed hS h hm.host

end Core

namespace Raft

open RaftTesting.Core

variable [Raftpb] {r r' : Raft} {m : Message}

/-- The configuration of a storage or of a snapshot is built from nothing. -/
theorem restoreConfig_formed {cs : ConfState} {n : Nat} (hfol : r.state=.stateFollower)
    (hprs : r.prs=.makeProgressTracker n) (h : r.restoreConfig cs=.ok r') : r'.core.Formed := by
  obtain ⟨t,ht,-,rfl⟩ := restoreConfig_eq hfol h
  rw [hprs] at ht
  exact ⟨Changer.formed_restore ht,fun hl => absurd (hfol.symm.trans hl) nofun⟩

theorem handleSnapshot_formed (hfol : r.state=.stateFollower) (hr : r.core.Formed)
    (h : r.handleSnapshot m=.ok r') : r'.core.Formed := by
  obtain ⟨⟨r1,restored⟩,h1,h⟩ := bind_eq_ok.mp h
  have hformed : r1.core.Formed := by
    unfold restore at h1
    split at h1
    · cases h1
      exact hr
    rw [if_neg (not_not.mpr hfol)] at h1
    dsimp only at h1
    split at h1
    · cases h1
      exact hr
    split at h1
    · cases h1
      exact hr.alike ⟨rfl,fun _ => rfl⟩ .inl
    obtain ⟨r2,h2,h1⟩ := bind_eq_ok.mp h1
    cases h1
    obtain ⟨r3,h3,h2⟩ := bind_eq_ok.mp h2
    have hform := restoreConfig_formed (by exact hfol) rfl h3
    split at h2
    · cases h2
    · rename_i pr hget
      cases h2
      exact hform.alike (.insert hget (maybeUpdate_learner _ _)) .inl
  dsimp only at h
  split at h <;> rw [send_core h] <;> exact hformed.alike ⟨rfl,fun _ => rfl⟩ .inl

/-- A snapshot is handled by a follower, or by a candidate that becomes one. -/
theorem stepState_snap_formed {err : Option StepErr} (ht : m.type=.msgSnap) (hr : r.core.Formed)
    (h : r.stepState m=.ok (r',err)) : r'.core.Formed := by
  have hcand : r.stepCandidate m=.ok (r',err) → r'.core.Formed := by
    intro h
    unfold stepCandidate at h
    rw [ht] at h
    obtain ⟨r1,h1,h⟩ := bind_eq_ok.mp h
    cases h
    refine handleSnapshot_formed rfl ?_ h1
    exact hr.alike (d := { r.core.reset m.term with state := .stateFollower })
      ⟨rfl,reset_tracked r.core m.term⟩ nofun
  unfold stepState at h
  split at h
  · rename_i hfol
    unfold stepFollower at h
    rw [ht] at h
    obtain ⟨r1,h1,h⟩ := bind_eq_ok.mp h
    cases h
    exact handleSnapshot_formed (r := r.hearLeader m.fromId) hfol hr h1
  · exact hcand h
  · exact hcand h
  · unfold stepLeader stepLeaderPeer at h
    rw [ht] at h
    dsimp only at h
    split at h
    · cases h
      exact hr
    · obtain ⟨r1,h1,h⟩ := bind_eq_ok.mp h
      cases h
      cases h1
      exact hr

theorem step_formed {err : Option StepErr} (hm : m.Stamped) (hr : r.core.Formed)
    (h : r.step m=.ok (r',err)) : r'.core.Formed := by
  by_cases ht : m.type=.msgSnap
  · have h0 : m.term≠0 := hm (by rw [ht]; rfl)
    have htype : ∀ r : Raft, r.stepType m=r.stepState m := by
      intro r
      unfold stepType
      rw [ht]
    unfold step at h
    rw [if_neg h0] at h
    split at h
    · have hvote : r.ignoresVote m=false := by simp [ignoresVote,ht]
      have hkeep : keepsTerm m=false := by simp [keepsTerm,ht]
      rw [hvote,if_neg Bool.false_ne_true,hkeep,if_neg Bool.false_ne_true,htype] at h
      refine stepState_snap_formed ht ?_ h
      exact hr.alike (d := { r.core.reset m.term with state := .stateFollower })
        ⟨rfl,reset_tracked r.core m.term⟩ nofun
    split at h
    · obtain ⟨r1,h1,h⟩ := bind_eq_ok.mp h
      cases h
      unfold stepLower at h1
      simp only [ht,reduceCtorEq,or_self,and_false,if_false] at h1
      cases h1
      exact hr
    · rw [htype] at h
      exact stepState_snap_formed ht hr h
  · exact Moves.formed (fun _ hm => hm) hr
      (step_moves (S := fun m => m.type≠.msgSnap) (fun _ => ht) hm h)

theorem applyConfChange_formed {cc : ConfChangeV2} {cs : ConfState} (hr : r.core.Formed)
    (h : r.applyConfChange cc=.ok (r',cs)) : r'.core.Formed := by
  obtain ⟨t,ht,hm⟩ := applyConfChange_moves (S := fun _ => False) h
  obtain ⟨hformed,hvoters⟩ := Changer.formed_change (c := ⟨r.prs,r.raftLog.lastIndex⟩) hr.formed ht
  exact Moves.formed (fun _ hm => hm.elim) (c := r.core.install t) ⟨hformed,fun _ => hvoters⟩ hm

theorem newRaft_formed {c : Config} {draws : List Nat} (h : newRaft c draws=.ok r) :
    r.core.Formed := by
  obtain ⟨c',t,applied,-,ht,-,-,-,-,rfl⟩ := newRaft_eq h
  have hform : Core.Formed ((blank c' draws).installConfig t).core :=
    ⟨Changer.formed_restore ht,fun hl => nomatch hl⟩
  refine hform.alike (d := (begun c' draws t applied).core) ⟨rfl,fun id => ?_⟩ nofun
  change ((t.prs.mapVals _).get? id).map _=_
  rw [SortedMap.get?_mapVals,Option.map_map]
  rfl

end Raft

/-- Bootstrap applies the change of each peer to the follower that it is called on. -/
theorem RawNode.bootstrap_formed [Raftpb] {rn rn' : RawNode} {marshal : ConfChange → Bytes}
    {peers : List Peer} (hrn : rn.raft.core.Formed)
    (h : rn.bootstrap marshal peers=.ok (.ok rn')) : rn'.raft.core.Formed := by
  unfold bootstrap at h
  split at h
  · cases h
  split at h
  · cases h
  obtain ⟨rn1,h1,h⟩ := bind_eq_ok.mp h
  cases h
  obtain ⟨l,-,h1⟩ := bind_eq_ok.mp h1
  obtain ⟨r1,hfold,h1⟩ := bind_eq_ok.mp h1
  cases h1
  refine foldlM_rel (R := fun a b : Raft => a.core.Formed → b.core.Formed) (fun _ h => h)
    (fun _ _ _ h h' ha => h' (h ha)) (fun p _ a b hab ha => ?_) hfold ?_
  · obtain ⟨⟨a',cs⟩,h1,h2⟩ := bind_eq_ok.mp hab
    cases h2
    exact Raft.applyConfChange_formed ha h1
  · exact hrn.alike (d := { rn.raft.core.reset 1 with
      state := .stateFollower
      raftLog := { l with committed := (bootstrapEntries marshal peers).length } })
      ⟨rfl,Core.reset_tracked rn.raft.core 1⟩ nofun

namespace Session

open RaftTesting.Core

variable [Raftpb] {x x' y : Session} {a : Act} {acts : List Act}

def Formed (x : Session) : Prop := x.rn.raft.core.Formed

theorem Start.formed (hx : x.Start) : x.Formed := by
  cases hx with
  | fresh hms h =>
    obtain ⟨r,hr,h⟩ := bind_eq_ok.mp h
    cases h
    exact Raft.newRaft_formed hr
  | boot hms h hboot =>
    obtain ⟨r,hr,h⟩ := bind_eq_ok.mp h
    cases h
    exact RawNode.bootstrap_formed (Raft.newRaft_formed hr) hboot

theorem Formed.act (h : x.Formed) (hf : x.Fits a) (hact : x.act a=.ok x') : x'.Formed := by
  have hdoes := act_does hact
  have hsame : ∀ {r : Raft}, r.prs=x.rn.raft.prs → r.state=x.rn.raft.state → r.core.Formed := by
    intro r hprs hstate
    refine Core.Formed.alike h ?_ (fun hl => .inl (hstate.symm.trans hl))
    change Tracked.Alike ⟨x.rn.raft.prs.config,_⟩ ⟨r.prs.config,r.prs.progress⟩
    rw [hprs]
    exact ⟨rfl,fun _ => rfl⟩
  cases hdoes with
  | stay => exact h
  | step hr => exact Raft.step_formed hf.stamped h hr
  | tick hr => exact Moves.formed (fun _ hm => hm.elim) h (Raft.tick_moves (S := fun _ => False) hr)
  | applyConfChange hr => exact Raft.applyConfChange_formed h hr
  | ready | save | append | compact => exact hsame rfl rfl
  | @advance w rn hw hst hadv =>
    obtain ⟨r',hr',hadv⟩ := bind_eq_ok.mp hadv
    cases hadv
    obtain ⟨r1,h1,hr'⟩ := bind_eq_ok.mp hr'
    cases hr'
    have hm : HostMoves (fun _ => False) x.rn.raft.core r1.core :=
      Raft.advanceApplied_moves (r := x.rn.raft.reduceUncommittedSize _) h1
    exact (hm.formed (fun _ hm => hm.elim) h).alike ⟨rfl,fun _ => rfl⟩ .inl

/-- In every state of a run the configuration is one that the Changer has made. -/
theorem run_formed (hx : x.Start) (hfits : x.Along Fits acts) (hy : x.run acts=.ok y) : y.Formed :=
  run_induct (I := Formed) (fun _ _ _ h hf hact => h.act hf hact) hx.formed hfits hy

end Session

end RaftTesting
