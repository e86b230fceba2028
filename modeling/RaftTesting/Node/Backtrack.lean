import RaftTesting.Log.WellFormed
import RaftTesting.Protocol.Step

namespace RaftTesting

namespace LogView

/-- Terms do not go down along a log, and only position 0 has the term 0. -/
structure Ascending (v : LogView) : Prop where
  mono : ∀ i j, v.index ≤ i → i≤j → j≤v.lastIndex → v.termAt i≤v.termAt j
  pos : ∀ i, 1 ≤ i → v.index ≤ i → i≤v.lastIndex → 1≤v.termAt i
  zero : v.index=0 → v.term=0

/-- Both logs have an entry, or their dummy, of the same term at a position. -/
def Agrees (v w : LogView) (i : Nat) : Prop :=
  (v.index ≤ i ∧ i≤v.lastIndex) ∧ (w.index ≤ i ∧ i≤w.lastIndex) ∧ v.termAt i=w.termAt i

variable {v w : LogView} {i : Nat}

instance (v : LogView) : Decidable v.Ascending :=
  decidable_of_iff ((∀ j<v.lastIndex+1, ∀ i<j+1, v.index ≤ i → v.termAt i≤v.termAt j) ∧
      (∀ i<v.lastIndex+1, 1 ≤ i → v.index ≤ i → 1≤v.termAt i) ∧ (v.index=0 → v.term=0))
    ⟨fun ⟨h1,h2,h3⟩ => ⟨fun i j hi hij hj => h1 j (Nat.lt_succ_of_le hj) i (Nat.lt_succ_of_le hij) hi,
      fun i hpos hi hl => h2 i (Nat.lt_succ_of_le hl) hpos hi,h3⟩,
    fun h => ⟨fun j hj i hi hlow => h.mono i j hlow (Nat.le_of_lt_succ hi) (Nat.le_of_lt_succ hj),
      fun i hi hpos hlow => h.pos i hpos hlow (Nat.le_of_lt_succ hi),h.zero⟩⟩

theorem termAt_below (h : i<v.index) : v.termAt i=0 := by
  unfold termAt entryAt
  rw [if_neg (by omega),if_pos (by omega)]
  rfl

theorem termAt_past (h : v.lastIndex < i) : v.termAt i=0 := by
  unfold lastIndex at h
  have hnone : v.entryAt i=none := by
    rw [entryAt_of_lt (by omega),List.getElem?_eq_none_iff]
    omega
  unfold termAt
  rw [if_neg (by omega),hnone]
  rfl

theorem termAt_zero (h : v.index=0 → v.term=0) : v.termAt 0=0 := by
  by_cases hz : v.index=0
  · unfold termAt
    rw [if_pos hz.symm]
    exact h hz
  · exact termAt_below (by omega)

theorem Ascending.termAt_zero (h : v.Ascending) : v.termAt 0=0 := LogView.termAt_zero h.zero

end LogView

namespace RaftLog

variable {l f : RaftLog}

/-- The search goes down to the first position whose term is small enough. -/
theorem findConflictLoop_spec (hl : l.WellFormed) (hzero : l.view.termAt 0=0) (t i : Nat) :
    l.findConflictLoop t i ≤ i ∧ l.view.termAt (l.findConflictLoop t i)≤t ∧
      ∀ j, l.findConflictLoop t i<j → j ≤ i → t<l.view.termAt j := by
  induction i with
  | zero =>
    unfold findConflictLoop
    rw [hl.readable.term_eq,hzero]
    dsimp only
    rw [if_pos (Nat.zero_le t)]
    exact ⟨le_rfl,hzero.trans_le (Nat.zero_le t),fun j hj hj' => by omega⟩
  | succ i ih =>
    unfold findConflictLoop
    rw [hl.readable.term_eq]
    dsimp only
    split_ifs with ht
    · exact ⟨le_rfl,ht,fun j hj hj' => by omega⟩
    · obtain ⟨h1,h2,h3⟩ := ih
      refine ⟨h1.trans (Nat.le_succ i),h2,fun j hj hj' => ?_⟩
      rcases Nat.lt_or_ge i j with hlt | hge
      · obtain rfl : j=i+1 := by omega
        exact Nat.not_le.mp ht
      · exact h3 j hj hge

theorem findConflictByTerm_spec (hl : l.WellFormed) (ha : l.view.Ascending) {i : Nat}
    (hi : i≤l.lastIndex) (t : Nat) : l.findConflictByTerm i t ≤ i ∧
      l.view.termAt (l.findConflictByTerm i t)≤t ∧
      ∀ j, l.findConflictByTerm i t<j → j ≤ i → t<l.view.termAt j := by
  unfold findConflictByTerm
  rw [if_neg (Nat.not_lt.mpr hi)]
  exact findConflictLoop_spec hl ha.termAt_zero t i

/-- The loop of findConflictByTerm round by round, as far as the fuel goes: the indexes that are
decremented, where 0 wraps, and the index at which the loop ends. -/
def findConflictRounds (l : RaftLog) (term : Nat) : Nat → Nat → Option (List Nat × Nat)
  | 0,_ => none
  | fuel+1,index =>
    match l.term index with
    | .ok t =>
      if t≤term then some ([],index)
      else (l.findConflictRounds term fuel (usub index 1)).map (fun r => (index::r.1,r.2))
    | .error _ => some ([],index)

theorem findConflictRounds_eq (hl : l.WellFormed) (hzero : l.view.termAt 0=0) (t i fuel : Nat)
    (hfuel : i<fuel) : l.findConflictRounds t fuel i=
      some ((List.range' (l.findConflictLoop t i+1) (i-l.findConflictLoop t i)).reverse,
        l.findConflictLoop t i) := by
  induction i generalizing fuel with
  | zero =>
    obtain ⟨fuel,rfl⟩ : ∃ n, fuel=n+1 := ⟨fuel-1,by omega⟩
    unfold findConflictRounds findConflictLoop
    rw [hl.readable.term_eq,hzero]
    dsimp only
    rw [if_pos (Nat.zero_le t),if_pos (Nat.zero_le t)]
    rfl
  | succ i ih =>
    obtain ⟨fuel,rfl⟩ : ∃ n, fuel=n+1 := ⟨fuel-1,by omega⟩
    unfold findConflictRounds findConflictLoop
    rw [hl.readable.term_eq]
    dsimp only
    split_ifs with ht
    · rw [Nat.sub_self]
      rfl
    · have hle := (findConflictLoop_spec hl hzero t i).1
      have hlast : l.findConflictLoop t i+1+(i-l.findConflictLoop t i)=i+1 := by omega
      rw [usub_of_le (Nat.le_add_left 1 i),Nat.add_sub_cancel,ih fuel (by omega),
        Nat.succ_sub hle,List.range'_1_concat,hlast,List.reverse_concat]
      rfl

/-- The loop ends, every index that it decrements is above the result, and the result is the
largest index with a term that is small enough. -/
theorem findConflictByTerm_greatest (l : RaftLog) (hl : l.WellFormed)
    (hdummy : l.view.index=0 → l.view.term=0) (index t : Nat) (hi : index≤l.lastIndex) :
    (∀ fuel, index<fuel → l.findConflictRounds t fuel index=
      some ((List.range' (l.findConflictByTerm index t+1)
        (index-l.findConflictByTerm index t)).reverse,l.findConflictByTerm index t)) ∧
    IsGreatest { j | j ≤ index ∧ ∃ tj≤t, l.term j=.ok tj } (l.findConflictByTerm index t) ∧
    (∀ j, l.findConflictByTerm index t<j → j ≤ index → ∃ tj, t<tj ∧ l.term j=.ok tj) ∧
    ∀ j<l.firstIndex-1, l.term j=.ok 0 := by
  have hzero := LogView.termAt_zero hdummy
  have hloop : l.findConflictByTerm index t=l.findConflictLoop t index :=
    if_neg (Nat.not_lt.mpr hi)
  have hterm := hl.readable.term_eq
  obtain ⟨hle,hsmall,hlarge⟩ := findConflictLoop_spec hl hzero t index
  rw [hloop]
  refine ⟨fun fuel hfuel => findConflictRounds_eq hl hzero t index fuel hfuel,⟨?_,?_⟩,?_,?_⟩
  · exact ⟨hle,_,hsmall,hterm _⟩
  · rintro j ⟨hj,tj,htj,heq⟩
    by_contra hgt
    have hbig := hlarge j (Nat.not_le.mp hgt) hj
    rw [hterm] at heq
    cases heq
    omega
  · intro j hj hji
    exact ⟨_,hlarge j hj hji,hterm j⟩
  · intro j hj
    exact if_pos (.inl hj)

/-- A log compacted up to position 3, with stored entries and one that is not stored yet. -/
def compacted : RaftLog where
  storage := ⟨{},{},[⟨2,3,.entryNormal,[]⟩,⟨2,4,.entryNormal,[]⟩,⟨4,5,.entryNormal,[]⟩],by decide⟩
  unstable := ⟨none,[⟨5,6,.entryNormal,[]⟩],6⟩
  committed := 4
  applied := 4
  maxNextEntsSize := 0

/-- For a term that the log does not reach back to, the search ends below the dummy. -/
theorem findConflictByTerm_compacted : compacted.findConflictByTerm 6 3=4 ∧
    compacted.findConflictByTerm 6 1=2 ∧
    IsGreatest { j | j≤6 ∧ ∃ tj≤1, compacted.term j=.ok tj } 2 := by
  have hl : compacted.WellFormed :=
    ⟨⟨by decide,nofun,by decide,nofun,by decide⟩,by decide,by decide,by decide,by decide⟩
  exact ⟨by decide,by decide,(findConflictByTerm_greatest compacted hl (by decide) 6 1
    (by decide)).2.1⟩

/-- The hint of a follower with log f that rejects a probe of leader l at position i. -/
def hintFor (l f : RaftLog) (i : Nat) : Nat :=
  f.findConflictByTerm (min i f.lastIndex) (l.view.termAt i)

/-- What the leader makes of the hint. -/
def probeFor (l f : RaftLog) (i : Nat) : Nat :=
  if 0<f.view.termAt (hintFor l f i) then
    l.findConflictByTerm (hintFor l f i) (f.view.termAt (hintFor l f i))
  else hintFor l f i

/-- The position of the next probe. -/
def nextProbe (l f : RaftLog) (i : Nat) : Nat := max (min i (probeFor l f i+1)) 1-1

/-- No position between the new probe and the rejected one can match. -/
theorem probeFor_skips (hl : l.WellFormed) (hf : f.WellFormed) (hal : l.view.Ascending)
    (haf : f.view.Ascending) {i j : Nat} (hi : i≤l.lastIndex) (hp : probeFor l f i<j)
    (hji : j ≤ i) : ¬l.view.Agrees f.view j := by
  rintro ⟨⟨hl1,hl2⟩,⟨hf1,hf2⟩,heq⟩
  rw [← hl.readable.lastIndex_eq] at hl2
  rw [← hf.readable.lastIndex_eq] at hf2
  obtain ⟨hh1,hh2,hh3⟩ := findConflictByTerm_spec hf haf (min_le_right i f.lastIndex)
    (l.view.termAt i)
  change hintFor l f i≤_ at hh1
  change f.view.termAt (hintFor l f i)≤_ at hh2
  have hle : l.view.termAt j≤l.view.termAt i :=
    hal.mono j i hl1 hji (hl.readable.lastIndex_eq ▸ hi)
  rcases Nat.lt_or_ge (hintFor l f i) j with hlt | hge
  · -- above the hint the follower's terms are larger than the leader's at i
    have := hh3 j hlt (by omega)
    omega
  · unfold probeFor at hp
    split_ifs at hp with hpos
    · -- above the probe the leader's terms are larger than the follower's at the hint
      have hlast : hintFor l f i≤l.lastIndex := by omega
      obtain ⟨-,-,hq⟩ := findConflictByTerm_spec hl hal hlast (f.view.termAt (hintFor l f i))
      have hgt := hq j hp hge
      have hlow : f.view.termAt j≤f.view.termAt (hintFor l f i) := by
        refine haf.mono j _ hf1 hge ?_
        rw [← hf.readable.lastIndex_eq]
        omega
      omega
    · omega

theorem nextProbe_lt (l f : RaftLog) {i : Nat} (hi : 1 ≤ i) : nextProbe l f i < i := by
  unfold nextProbe
  omega

/-- Where the follower does not match, the next probe skips no position at which it does. -/
theorem nextProbe_skips (hl : l.WellFormed) (hf : f.WellFormed) (hal : l.view.Ascending)
    (haf : f.view.Ascending) {i j : Nat} (hi : i≤l.lastIndex)
    (hrej : f.matchTerm i (l.view.termAt i)=false) (hp : nextProbe l f i<j) (hji : j ≤ i) :
    ¬l.view.Agrees f.view j := by
  rcases Nat.lt_or_ge j i with hlt | hge
  · refine probeFor_skips hl hf hal haf hi ?_ hji
    unfold nextProbe at hp
    omega
  · obtain rfl : j=i := by omega
    rintro ⟨-,-,heq⟩
    rw [hf.matchTerm_eq heq.symm] at hrej
    cases hrej

/-- A follower that matches has the position. -/
theorem agrees_of_match (hf : f.WellFormed) (hal : l.view.Ascending)
    {i : Nat} (hlow : l.view.index ≤ i) (hhigh : i≤l.view.lastIndex) (hc : f.committed ≤ i)
    (hm : f.matchTerm i (l.view.termAt i)=true) : l.view.Agrees f.view i := by
  have heq : f.view.termAt i=l.view.termAt i := by
    unfold matchTerm at hm
    rw [hf.readable.term_eq] at hm
    exact of_decide_eq_true hm
  refine ⟨⟨hlow,hhigh⟩,⟨hf.low.trans hc,?_⟩,heq.symm⟩
  by_contra hpast
  rw [LogView.termAt_past (Nat.not_le.mp hpast)] at heq
  rcases Nat.eq_zero_or_pos i with rfl | hpos
  · exact hpast (Nat.zero_le _)
  · have := hal.pos i hpos hlow hhigh
    omega

/-- Probing ends after finitely many rejections, at the last position that both logs have
with the same term or at one for which the leader needs a snapshot. -/
theorem probing_ends (hl : l.WellFormed) (hf : f.WellFormed) (hal : l.view.Ascending)
    (haf : f.view.Ascending)
    (hcommon : ∀ j, l.view.index≤j → f.view.index≤j → j≤f.committed → l.view.Agrees f.view j)
    (i : Nat) (hi : i≤l.lastIndex) (hc : l.view.index ≤ i → f.committed ≤ i) :
    ∃ n ≤ i, (∀ k<n, l.view.index≤(nextProbe l f)^[k] i ∧ f.committed≤(nextProbe l f)^[k] i ∧
        f.matchTerm ((nextProbe l f)^[k] i) (l.view.termAt ((nextProbe l f)^[k] i))=false) ∧
      ((nextProbe l f)^[n] i<l.view.index ∨ l.view.Agrees f.view ((nextProbe l f)^[n] i)) ∧
      ∀ j, (nextProbe l f)^[n] i<j → j ≤ i → ¬l.view.Agrees f.view j := by
  induction i using Nat.strong_induction_on with
  | _ i ih =>
    rcases Nat.lt_or_ge i l.view.index with hlt | hlow
    · exact ⟨0,Nat.zero_le i,fun k hk => absurd hk (Nat.not_lt_zero k),.inl hlt,
        fun j hj hji => absurd hji (Nat.not_le.mpr hj)⟩
    have hhigh : i≤l.view.lastIndex := hl.readable.lastIndex_eq ▸ hi
    cases hm : f.matchTerm i (l.view.termAt i) with
    | true =>
      exact ⟨0,Nat.zero_le i,fun k hk => absurd hk (Nat.not_lt_zero k),
        .inr (agrees_of_match hf hal hlow hhigh (hc hlow) hm),
        fun j hj hji => absurd hji (Nat.not_le.mpr hj)⟩
    | false =>
      have hpos : 1 ≤ i := by
        by_contra hz
        obtain rfl : i=0 := by omega
        rw [hf.matchTerm_eq (haf.termAt_zero.trans hal.termAt_zero.symm)] at hm
        cases hm
      have hskip := fun j => nextProbe_skips (j := j) hl hf hal haf hi hm
      have hlt := nextProbe_lt l f hpos
      -- the committed position of the follower is one that matches, so it is not skipped
      have hc' : l.view.index≤nextProbe l f i → f.committed≤nextProbe l f i := by
        intro hle
        by_contra hgt
        exact hskip f.committed (Nat.not_le.mp hgt) (hc hlow)
          (hcommon _ (by omega) hf.low le_rfl)
      obtain ⟨n,hn,hrej,hend,hnone⟩ := ih _ hlt (by omega) hc'
      refine ⟨n+1,by omega,fun k hk => ?_,hend,fun j hj hji => ?_⟩
      · cases k with
        | zero => exact ⟨hlow,hc hlow,hm⟩
        | succ k => exact hrej k (by omega)
      · rcases Nat.lt_or_ge (nextProbe l f i) j with hgt | hle
        · exact hskip j hgt hji
        · exact hnone j hj hle

end RaftLog

namespace Raft

open RaftLog

variable {r r' : Raft} {l : RaftLog} {m a : Message} {pr : Progress}

/-- The rejection of a probe, and where the leader goes back to. -/
theorem handleAppendEntries_rejects (hf : r.raftLog.WellFormed)
    (hterm : m.logTerm=l.view.termAt m.index) (h : r.handleAppendEntries m=.ok r')
    (ha : r'.msgs=r.msgs++[a]) (hrej : a.reject=true) (hs : pr.state=.stateProbe)
    (hnext : pr.next=m.index+1) :
    r.raftLog.matchTerm m.index m.logTerm=false ∧
      (pr.maybeDecrTo a.index (nextProbeIdx l a)).1.next=nextProbe l r.raftLog m.index+1 := by
  have hone : ∀ {x y : Message}, r.msgs++[x]=r.msgs++[y] → x=y := fun h => by simpa using h
  unfold handleAppendEntries at h
  split at h
  · cases h
    rw [← hone ha] at hrej
    cases hrej
  obtain ⟨⟨l1,res⟩,hl1,h⟩ := bind_eq_ok.mp h
  unfold maybeAppend at hl1
  split at hl1
  · obtain ⟨l2,_,hl1⟩ := bind_eq_ok.mp hl1
    cases hl1
    cases h
    rw [← hone ha] at hrej
    cases hrej
  · rename_i hm
    cases hl1
    refine ⟨Bool.eq_false_iff.mpr hm,?_⟩
    have hread : r.raftLog.term (hintFor l r.raftLog m.index)=
        .ok (r.raftLog.view.termAt (hintFor l r.raftLog m.index)) := hf.readable.term_eq _
    change r.rejectAppend m=.ok r' at h
    have hhint : r.raftLog.findConflictByTerm (min m.index r.raftLog.lastIndex) m.logTerm=
        hintFor l r.raftLog m.index := by
      rw [hterm]
      rfl
    unfold rejectAppend at h
    dsimp only at h
    rw [hhint,hread] at h
    cases h
    rw [← hone ha]
    have husub : usub pr.next 1=m.index := by
      rw [hnext,usub_of_le (by omega),Nat.add_sub_cancel]
    have hstate : pr.state≠.stateReplicate := by
      rw [hs]
      decide
    have hmax : ∀ n : Nat, max n 1=max n 1-1+1 := by omega
    unfold Progress.maybeDecrTo
    rw [if_neg hstate]
    change (if usub pr.next 1≠m.index then _ else _ : Progress × Bool).1.next=_
    rw [if_neg (not_not.mpr husub)]
    exact hmax _

/-- A log of entries with these terms, none of them stored. -/
def ofTerms (ts : List Nat) : RaftLog where
  storage := .newMemoryStorage
  unstable := ⟨none,ts.mapIdx (fun i t => ⟨t,i+1,.entryNormal,[]⟩),1⟩
  committed := 0
  applied := 0
  maxNextEntsSize := 0

/-- A follower whose tail is of a term that the leader does not have. -/
def diverged : Raft := Raft.setLog (.blank {
  id := 2
  electionTick := 10
  heartbeatTick := 1
  storage := .newMemoryStorage
  maxInflightMsgs := 256 } []) (ofTerms [1,2,2,3,3,3,3,3,3,3,3])

end Raft

end RaftTesting
