import RaftTesting.Tracker.Tracker

namespace RaftTesting

namespace MajorityConfig

/-- A vote is not lost as long as those that have not said no are a majority. -/
theorem voteResult_open (c : MajorityConfig) (votes : SortedMap Bool) :
    voteResult c votes≠.voteLost ↔
      len c=0 ∨ MajorityOf (ids c) (fun id => votes.get? id≠some false) := by
  have hsplit : ((slice c).filter (fun id => votes.get? id≠some false)).length=
      ((slice c).filter (fun id => votes.get? id=some true)).length+
      ((slice c).filter (fun id => votes.get? id=none)).length := by
    induction slice c with
    | nil => rfl
    | cons id ids ih =>
      simp only [List.filter_cons]
      cases votes.get? id with
      | none => simp at ih ⊢; omega
      | some v => cases v <;> simp at ih ⊢ <;> omega
  have hm := MajorityOf.iff_filter (ids c) (fun id => votes.get? id≠some false)
  simp only [decide_eq_true_eq] at hm
  rw [hm,card_ids,card_filter_ids,hsplit]
  simp only [voteResult]
  split_ifs <;> simp only [ne_eq,reduceCtorEq,not_false_eq_true,not_true_eq_false,true_iff,
    false_iff] <;> omega

end MajorityConfig

namespace JointConfig

variable {c : JointConfig} {votes votes' : SortedMap Bool}

theorem voteResult_open (c : JointConfig) (votes : SortedMap Bool) :
    c.voteResult votes≠.voteLost ↔ c.QuorumOf (fun id => votes.get? id≠some false) := by
  simp only [QuorumOf,← MajorityConfig.voteResult_open,voteResult]
  cases MajorityConfig.voteResult c.incoming votes <;>
    cases MajorityConfig.voteResult c.outgoing votes <;> simp

/-- Only what the voters of the config do counts. -/
theorem QuorumOf.mono_ids {S T : Nat → Prop} (h : c.QuorumOf S)
    (hs : ∀ id, c.ids.contains id=true → S id → T id) : c.QuorumOf T := by
  refine ⟨h.1.imp_right (fun q => q.mono ?_),h.2.imp_right (fun q => q.mono ?_)⟩
  · intro id hid
    apply hs
    simp [(MajorityConfig.mem_ids _ _).mp hid]
  · intro id hid
    apply hs
    simp [(MajorityConfig.mem_ids _ _).mp hid]

/-- The votes that are in stay as they are. -/
def Extends (votes votes' : SortedMap Bool) : Prop :=
  ∀ id v, votes.get? id=some v → votes'.get? id=some v

/-- The votes of all voters, the missing ones filled in somehow. -/
structure Completes (c : JointConfig) (votes votes' : SortedMap Bool) : Prop where
  kept : Extends votes votes'
  full : ∀ id, c.ids.contains id=true → (votes'.get? id).isSome

/-- More votes keep a won vote won. -/
theorem Extends.won (h : Extends votes votes') (hw : c.voteResult votes=.voteWon) :
    c.voteResult votes'=.voteWon := by
  rw [voteResult_won] at hw ⊢
  apply hw.mono
  intro id hid
  exact h id true hid

/-- More votes cannot save a lost vote. -/
theorem Extends.lost (h : Extends votes votes') (hl : c.voteResult votes=.voteLost) :
    c.voteResult votes'=.voteLost := by
  by_contra hne
  rw [← ne_eq,voteResult_open] at hne
  have hopen : c.QuorumOf (fun id => votes.get? id≠some false) := by
    apply hne.mono
    intro id hid hfalse
    exact hid (h id false hfalse)
  exact (voteResult_open c votes).mpr hopen hl

/-- All missing votes filled in with yes. -/
def grantRest (c : JointConfig) (votes : SortedMap Bool) : SortedMap Bool :=
  c.ids.keys.foldl (fun votes id => match votes.get? id with
    | some _ => votes
    | none => votes.insert id true) votes

theorem get?_grantRest (c : JointConfig) (votes : SortedMap Bool) (id : Nat) :
    (c.grantRest votes).get? id=
      if c.ids.contains id=true then some ((votes.get? id).getD true) else votes.get? id := by
  have hfold : ∀ (ids : List Nat) (votes : SortedMap Bool),
      (ids.foldl (fun votes id => match votes.get? id with
        | some _ => votes
        | none => votes.insert id true) votes).get? id=
      if id ∈ ids then some ((votes.get? id).getD true) else votes.get? id := by
    intro ids
    induction ids with
    | nil => simp
    | cons id' ids ih =>
      intro votes
      rw [List.foldl_cons,ih]
      by_cases hid : id=id'
      · subst hid
        cases hv : votes.get? id with
        | none => simp
        | some v => simp [hv]
      · cases votes.get? id' with
        | none => simp [hid,SortedMap.get?_insert_ne _ _ hid]
        | some v => simp [hid]
  unfold grantRest
  rw [hfold]
  simp only [IdSet.mem_keys_contains]

theorem grantRest_completes (c : JointConfig) (votes : SortedMap Bool) :
    Completes c votes (c.grantRest votes) := by
  refine ⟨?_,?_⟩
  · intro id v hv
    rw [get?_grantRest,hv]
    split_ifs <;> rfl
  · intro id hid
    rw [get?_grantRest,if_pos hid]
    rfl

/-- One completion serves both halves: everybody who has not voted says yes. -/
theorem grantRest_won (h : c.voteResult votes≠.voteLost) :
    c.voteResult (c.grantRest votes)=.voteWon := by
  rw [voteResult_open] at h
  rw [voteResult_won]
  apply h.mono_ids
  intro id hid hne
  rw [get?_grantRest,if_pos hid]
  cases hv : votes.get? id with
  | none => rfl
  | some v =>
    cases v with
    | false => exact absurd hv hne
    | true => rfl

theorem voteResult_lost_iff : c.voteResult votes=.voteLost ↔
    ∀ votes', Completes c votes votes' → c.voteResult votes'≠.voteWon := by
  constructor
  · intro hl votes' hc hw
    rw [hc.kept.lost hl] at hw
    cases hw
  · intro hall
    by_contra hne
    exact hall _ (grantRest_completes c votes) (grantRest_won hne)

end JointConfig

namespace ProgressTracker

open JointConfig

/-- A vote that is already in stands, whatever is said later. -/
theorem recordVote_extends (p : ProgressTracker) (id : Nat) (v : Bool) :
    Extends p.votes (p.recordVote id v).votes := by
  intro id' v' hv'
  unfold recordVote
  split
  · exact hv'
  · rename_i hnone
    dsimp only
    rw [SortedMap.get?_insert_ne _ _ ?_]
    · exact hv'
    · rintro rfl
      rw [hnone] at hv'
      cases hv'

theorem foldl_recordVote (p : ProgressTracker) (ballots : List (Nat × Bool)) :
    (ballots.foldl (fun p b => p.recordVote b.1 b.2) p).config=p.config ∧
    Extends p.votes (ballots.foldl (fun p b => p.recordVote b.1 b.2) p).votes := by
  induction ballots generalizing p with
  | nil => exact ⟨rfl,fun _ _ h => h⟩
  | cons b ballots ih =>
    obtain ⟨hcfg,hext⟩ := ih (p.recordVote b.1 b.2)
    refine ⟨hcfg.trans (recordVote_frame p b.1 b.2).1,?_⟩
    intro id v hv
    exact hext id v (recordVote_extends p b.1 b.2 id v hv)

/-- A vote is won when the yes votes carry each half, lost when they no longer can, and
once decided it stays decided. -/
theorem voteResult_exact (c : JointConfig) (votes : SortedMap Bool) :
    (c.voteResult votes=.voteWon ↔ c.QuorumOf (fun id => votes.get? id=some true)) ∧
    (c.voteResult votes=.voteLost ↔
      ∀ votes', Completes c votes votes' → c.voteResult votes'≠.voteWon) ∧
    (c.voteResult votes=.votePending ↔ c.voteResult votes≠.voteWon ∧
      ∃ votes', Completes c votes votes' ∧ c.voteResult votes'=.voteWon) ∧
    ∀ (p : ProgressTracker) (ballots : List (Nat × Bool)), p.config.voters=c → p.votes=votes →
      p.tallyVotes≠.votePending →
      (ballots.foldl (fun p b => p.recordVote b.1 b.2) p).tallyVotes=p.tallyVotes := by
  refine ⟨voteResult_won c votes,voteResult_lost_iff,?_,?_⟩
  · have hlost : c.voteResult votes=.voteLost ↔
        ∀ votes', Completes c votes votes' → c.voteResult votes'≠.voteWon := voteResult_lost_iff
    constructor
    · intro hp
      refine ⟨by simp [hp],_,grantRest_completes c votes,grantRest_won ?_⟩
      simp [hp]
    · rintro ⟨hw,votes',hc,hwon⟩
      cases hr : c.voteResult votes with
      | votePending => rfl
      | voteLost => exact absurd hwon (hlost.mp hr votes' hc)
      | voteWon => exact absurd hr hw
  · intro p ballots _ _ hdecided
    obtain ⟨hcfg,hext⟩ := foldl_recordVote p ballots
    unfold tallyVotes at hdecided ⊢
    rw [hcfg]
    cases hr : p.config.voters.voteResult p.votes with
    | votePending => exact absurd hr hdecided
    | voteLost => exact hext.lost hr
    | voteWon => exact hext.won hr

/-- Two overlapping halves of three: the yes votes of 2 and 3 carry both, and the later no
of 3 is ignored. -/
theorem voteResult_exact_halves :
    let p : ProgressTracker := { makeProgressTracker 1 with
      config := ⟨⟨some (IdSet.ofList [1,2,3]),some (IdSet.ofList [2,3,4])⟩,false,none,none⟩ }
    let p := (p.recordVote 2 true).recordVote 3 true
    p.tallyVotes=.voteWon ∧
      ([(3,false),(1,false),(4,false)].foldl (fun p b => p.recordVote b.1 b.2) p).tallyVotes=
        .voteWon := by
  intro p0 p
  have hwon : p.tallyVotes=.voteWon := by decide
  refine ⟨hwon,?_⟩
  rw [(voteResult_exact p.config.voters p.votes).2.2.2 p _ rfl rfl (by rw [hwon]; decide)]
  exact hwon

end ProgressTracker

end RaftTesting
