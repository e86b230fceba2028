import RaftTesting.ConfChange.Overlap
import RaftTesting.Protocol.Membership

namespace RaftTesting

/-- The progress of a new member. -/
def Progress.joining (maxInflight last : Nat) (isLearner : Bool) : Progress where
  matchIndex := 0
  next := last
  state := .stateProbe
  pendingSnapshot := 0
  recentActive := true
  probeSent := false
  inflights := .newInflights maxInflight
  isLearner := isLearner

/-- Membership changes leave the progress of every member that stays as it is, but for its
role; a new member starts at 0 with Next at the last index. -/
def Kept (maxInflight last : Nat) (prs prs' : ProgressMap) : Prop :=
  ∀ id pr', prs'.get? id=some pr' →
    (∃ pr, prs.get? id=some pr ∧ pr'={ pr with isLearner := pr'.isLearner }) ∨
    pr'=.joining maxInflight last pr'.isLearner

namespace Kept

variable {n last id : Nat} {prs prs' prs'' : ProgressMap}

theorem refl (n last : Nat) (prs : ProgressMap) : Kept n last prs prs :=
  fun _ pr h => .inl ⟨pr,h,rfl⟩

theorem trans (h : Kept n last prs prs') (h' : Kept n last prs' prs'') : Kept n last prs prs'' := by
  intro id pr'' hget
  rcases h' id pr'' hget with ⟨pr',hget',hsame'⟩ | hnew
  · rcases h id pr' hget' with ⟨pr,hpr,hsame⟩ | hnew
    · rw [hsame] at hsame'
      exact .inl ⟨pr,hpr,hsame'⟩
    · rw [hnew] at hsame'
      exact .inr hsame'
  · exact .inr hnew

theorem erase (n last id : Nat) (prs : ProgressMap) : Kept n last prs (prs.erase id) := by
  intro id' pr' hget
  rw [SortedMap.get?_erase] at hget
  split_ifs at hget
  exact .inl ⟨pr',hget,rfl⟩

/-- A member is added, or its progress is written back. -/
theorem insert {pr' : Progress}
    (h : (∃ pr, prs.get? id=some pr ∧ pr'={ pr with isLearner := pr'.isLearner }) ∨
      pr'=.joining n last pr'.isLearner) :
    Kept n last prs (prs.insert id pr') := by
  intro id' q hget
  rw [SortedMap.get?_insert] at hget
  split_ifs at hget with he
  · cases hget
    exact he ▸ h
  · exact .inl ⟨q,hget,rfl⟩

end Kept

theorem Tracked.setLearner_kept (n last : Nat) (t : Tracked) (id : Nat) (b : Bool) :
    Kept n last t.prs (t.setLearner id b).prs := by
  unfold setLearner
  split
  · exact .refl n last t.prs
  · rename_i pr hget
    exact .insert (.inl ⟨pr,hget,rfl⟩)

namespace Changer

theorem remove_kept (n last : Nat) (t : Tracked) (id : Nat) :
    Kept n last t.prs (remove t id).prs := by
  unfold remove
  split
  · exact .refl n last t.prs
  · dsimp only
    split
    · exact .refl n last t.prs
    · exact .erase n last id t.prs

theorem initProgress_kept (c : Changer) (t : Tracked) (id : Nat) (b : Bool) :
    Kept c.tracker.maxInflight c.lastIndex t.prs (c.initProgress t id b).prs := .insert (.inr rfl)

theorem makeLearner_kept (c : Changer) (t : Tracked) (id : Nat) :
    Kept c.tracker.maxInflight c.lastIndex t.prs (c.makeLearner t id).prs := by
  unfold makeLearner
  split
  · exact initProgress_kept c t id true
  · rename_i pr hget
    split
    · exact .refl _ _ t.prs
    · -- the entry that remove may have erased is written back
      have hback : ∀ q : Progress, q={ pr with isLearner := q.isLearner } →
          Kept c.tracker.maxInflight c.lastIndex t.prs ((remove t id).prs.insert id q) := by
        intro q hsame id' q' hget'
        rw [SortedMap.get?_insert] at hget'
        split_ifs at hget' with he
        · cases hget'
          exact .inl ⟨pr,he ▸ hget,hsame⟩
        · exact remove_kept _ _ t id id' q' hget'
      dsimp only
      split
      · exact hback pr rfl
      · exact hback _ rfl

theorem applyOne_kept {c : Changer} {t t' : Tracked} {cc : ConfChangeSingle}
    (h : c.applyOne t cc=.ok t') :
    Kept c.tracker.maxInflight c.lastIndex t.prs t'.prs := by
  unfold applyOne at h
  split at h
  · cases h
    exact .refl _ _ t.prs
  · split at h <;> cases h
    · unfold makeVoter
      split
      · exact initProgress_kept c t _ false
      · exact Tracked.setLearner_kept _ _ t _ false
    · exact makeLearner_kept c t cc.nodeID
    · exact remove_kept _ _ t cc.nodeID
    · exact .refl _ _ t.prs

theorem apply_kept {c : Changer} {t t' : Tracked} {ccs : List ConfChangeSingle}
    (h : c.apply t ccs=.ok t') : Kept c.tracker.maxInflight c.lastIndex t.prs t'.prs := by
  obtain ⟨t1,h1,h⟩ := bind_eq_ok.mp h
  split at h
  · cases h
  · cases h
    exact foldlM_rel (R := fun a b : Tracked => Kept c.tracker.maxInflight c.lastIndex a.prs b.prs)
      (fun t => .refl _ _ t.prs) (fun _ _ _ => .trans) (fun _ _ _ _ => applyOne_kept) h1

theorem foldl_promoteNext_kept (n last : Nat) (l : List Nat) (t : Tracked) :
    Kept n last t.prs (l.foldl promoteNext t).prs := by
  induction l generalizing t with
  | nil => exact .refl n last t.prs
  | cons id l ih =>
    have hone : Kept n last t.prs (promoteNext t id).prs :=
      Tracked.setLearner_kept n last ⟨_,t.prs⟩ id true
    exact hone.trans (ih _)

theorem foldl_dropOutgoing_kept (n last : Nat) (cfg : TrackerConfig) (l : List Nat)
    (prs : ProgressMap) : Kept n last prs (l.foldl (dropOutgoing cfg) prs) := by
  induction l generalizing prs with
  | nil => exact .refl n last prs
  | cons id l ih =>
    refine Kept.trans ?_ (ih _)
    unfold dropOutgoing
    split
    · exact .refl n last prs
    · exact .erase n last id prs

theorem change_kept [Raftpb] {c : Changer} {cc : ConfChangeV2} {t : Tracked}
    (h : c.change cc=.ok t) :
    Kept c.tracker.maxInflight c.lastIndex c.tracker.progress t.prs := by
  unfold change at h
  split at h
  · obtain ⟨t0,h0,h⟩ := bind_eq_ok.mp h
    cases checkAndCopy_eq h0
    split at h
    · cases h
    · dsimp only at h
      cases Tracked.checkAndReturn_eq h
      exact (foldl_promoteNext_kept _ _ _ _).trans (foldl_dropOutgoing_kept _ _ _ _ _)
  · split at h
    · obtain ⟨t0,h0,h⟩ := bind_eq_ok.mp h
      cases checkAndCopy_eq h0
      split at h
      · cases h
      split at h
      · cases h
      obtain ⟨t1,h1,h⟩ := bind_eq_ok.mp h
      cases Tracked.checkAndReturn_eq h
      exact apply_kept h1
    · obtain ⟨t0,h0,h⟩ := bind_eq_ok.mp h
      cases checkAndCopy_eq h0
      split at h
      · cases h
      obtain ⟨t1,h1,h⟩ := bind_eq_ok.mp h
      split at h
      · cases h
      cases Tracked.checkAndReturn_eq h
      exact apply_kept h1

end Changer

end RaftTesting
