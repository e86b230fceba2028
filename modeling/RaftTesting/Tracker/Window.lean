import RaftTesting.Framework.Ring
import RaftTesting.Tracker.Progress

namespace RaftTesting

namespace Inflights

/-- The indexes in flight, the oldest one first. -/
def window (i : Inflights) : List Nat := Ring.contents i.buffer i.size i.start i.count

/-- The window lies in the buffer; an empty one starts at its front. -/
structure Ringed (i : Inflights) : Prop where
  laid : Ring.Laid i.buffer i.size i.start i.count
  start : i.count=0 → i.start=0

variable {i i' : Inflights}

theorem newInflights_ringed (size : Nat) : (newInflights size).Ringed :=
  ⟨⟨Nat.zero_le _,Nat.zero_le _,.inl le_rfl⟩,fun _ => rfl⟩

theorem Ringed.reset (h : i.Ringed) : i.reset.Ringed :=
  ⟨⟨h.laid.length,Nat.zero_le _,.inl (Nat.zero_le _)⟩,fun _ => rfl⟩

@[simp] theorem reset_window (i : Inflights) : i.reset.window=[] := rfl

theorem Ringed.length (h : i.Ringed) : i.window.length=i.count := Ring.contents_length h.laid

/-- The buffer grows beyond the slot that was one past its end. -/
theorem grow_buffer (i : Inflights) (h : i.buffer.length < i.size) :
    ∃ ext, i.grow={ i with buffer := i.buffer++ext } ∧ 0<ext.length ∧
      (i.buffer++ext).length ≤ i.size := by
  unfold grow
  dsimp only
  split_ifs with hz hs
  · have hnil : i.buffer=[] := List.length_eq_zero_iff.mp (by omega)
    refine ⟨[0],?_,Nat.one_pos,?_⟩
    · rw [hnil]
      rfl
    · rw [hnil]
      change 1 ≤ i.size
      omega
  all_goals
    refine ⟨List.replicate _ 0,by rw [List.take_of_length_le (by omega)],?_,?_⟩
    · rw [List.length_replicate]
      omega
    · rw [List.length_append,List.length_replicate]
      omega

/-- An index is added behind the others, unless the window is full. -/
theorem Ringed.add (h : i.Ringed) (hfull : i.full=false) (n : Nat) :
    ∃ i', i.add n=.ok i' ∧ i'.Ringed ∧ i'.size=i.size ∧ i'.window=i.window++[n] := by
  have hcount : i.count < i.size := by
    have hne : i.count≠i.size := by simpa [full] using hfull
    have := h.laid.count
    omega
  -- the slot of the new index, in a buffer that has it
  have hput : ∀ buf : List Nat, i.buffer<+:buf → buf.length ≤ i.size →
      Ring.slot i.size i.start i.count<buf.length →
      Ringed { i with
        buffer := buf.set (Ring.slot i.size i.start i.count) n
        count := i.count+1 } ∧
      Ring.contents (buf.set (Ring.slot i.size i.start i.count) n) i.size i.start (i.count+1)=
        i.window++[n] := by
    rintro _ ⟨ext,rfl⟩ hlen hlt
    have hstart := h.start
    have hplace := h.laid.place
    have hfit := h.laid.length
    refine ⟨⟨⟨?_,hcount,?_⟩,fun hz => absurd hz (Nat.succ_ne_zero _)⟩,?_⟩
    · rw [List.length_set]
      exact hlen
    · unfold Ring.slot at hlt
      dsimp only
      rw [List.length_set]
      rw [List.length_append] at hlen hlt ⊢
      split_ifs at hlt <;> omega
    · rw [Ring.contents_set hcount hlt,Ring.contents_append h.laid]
      rfl
  have hslot : (if i.size ≤ i.start+i.count then i.start+i.count-i.size else i.start+i.count)=
      Ring.slot i.size i.start i.count := rfl
  unfold Inflights.add
  rw [hfull,if_neg Bool.false_ne_true]
  dsimp only
  rw [hslot]
  by_cases hroom : i.buffer.length≤Ring.slot i.size i.start i.count
  · have hend : Ring.slot i.size i.start i.count=i.buffer.length ∧ i.buffer.length < i.size := by
      have hplace := h.laid.place
      have hfit := h.laid.length
      unfold Ring.slot at hroom ⊢
      split_ifs at hroom ⊢ <;> omega
    obtain ⟨ext,hgrow,hext,hlen⟩ := i.grow_buffer hend.2
    have hlt : Ring.slot i.size i.start i.count<(i.buffer++ext).length := by
      rw [List.length_append]
      omega
    obtain ⟨hr,hw⟩ := hput _ (List.prefix_append _ _) hlen hlt
    rw [if_pos hroom,hgrow]
    dsimp only
    rw [if_neg (Nat.not_le.mpr hlt)]
    exact ⟨_,rfl,hr,rfl,hw⟩
  · obtain ⟨hr,hw⟩ := hput _ List.prefix_rfl h.laid.length (Nat.not_le.mp hroom)
    rw [if_neg hroom,if_neg hroom]
    exact ⟨_,rfl,hr,rfl,hw⟩

/-- The loop frees the indexes that are not larger than upto. -/
theorem freeLoop_spec (i : Inflights) (upto n freed idx : Nat)
    (h : Ring.Laid i.buffer i.size idx n) : ∃ k idx', i.freeLoop upto n freed idx=.ok (freed+k,idx') ∧
      k≤n ∧ Ring.Laid i.buffer i.size idx' (n-k) ∧
      Ring.contents i.buffer i.size idx' (n-k)=
        (Ring.contents i.buffer i.size idx n).dropWhile (fun v => decide (v≤upto)) := by
  induction n generalizing freed idx with
  | zero => exact ⟨0,idx,rfl,le_rfl,h,rfl⟩
  | succ n ih =>
    obtain ⟨v,hv,heq⟩ := Ring.contents_cons h
    unfold freeLoop
    rw [hv,heq,List.dropWhile_cons]
    dsimp only
    by_cases hlt : upto<v
    · rw [if_pos hlt,if_neg (by simpa using hlt)]
      exact ⟨0,idx,rfl,Nat.zero_le _,h,heq⟩
    · have hle : decide (v≤upto)=true := by simpa using hlt
      rw [if_neg hlt,hle,if_pos rfl]
      obtain ⟨k,idx',hrun,hk,hlaid,hdrop⟩ := ih (freed+1) _ h.next
      refine ⟨k+1,idx',?_,by omega,?_,?_⟩
      · rw [← Nat.add_assoc,Nat.add_right_comm]
        exact hrun
      · rwa [Nat.succ_sub_succ]
      · rwa [Nat.succ_sub_succ]

theorem Ringed.freeLE (h : i.Ringed) (upto : Nat) : ∃ i', i.freeLE upto=.ok i' ∧ i'.Ringed ∧
    i'.size=i.size ∧ i'.window=i.window.dropWhile (fun v => decide (v≤upto)) := by
  unfold Inflights.freeLE
  by_cases hz : i.count=0
  · rw [if_pos hz]
    have hnil : i.window=[] := List.length_eq_zero_iff.mp (h.length.trans hz)
    exact ⟨i,rfl,h,rfl,by rw [hnil]; rfl⟩
  rw [if_neg hz]
  have hsucc : i.count=i.count-1+1 := by omega
  have hlaid := h.laid
  rw [hsucc] at hlaid
  obtain ⟨v,hv,heq⟩ := Ring.contents_cons hlaid
  rw [← hsucc] at heq
  rw [hv]
  dsimp only
  by_cases hlt : upto<v
  · rw [if_pos hlt]
    refine ⟨i,rfl,h,rfl,?_⟩
    change i.window=_ at heq
    rw [heq,List.dropWhile_cons,if_neg (by simpa using hlt)]
  · rw [if_neg hlt]
    obtain ⟨k,idx',hrun,hk,hlaid',hdrop⟩ := i.freeLoop_spec upto i.count 0 i.start h.laid
    rw [hrun,Nat.zero_add]
    refine ⟨_,rfl,?_,rfl,?_⟩
    · by_cases hend : i.count-k=0
      · dsimp only
        refine ⟨⟨hlaid'.length,hlaid'.count,?_⟩,fun _ => if_pos hend⟩
        dsimp only
        rw [if_pos hend,hend]
        exact .inl (Nat.zero_le _)
      · refine ⟨?_,fun hc => absurd hc hend⟩
        dsimp only
        rw [if_neg hend]
        exact hlaid'
    · unfold window
      dsimp only
      rw [← hdrop]
      by_cases hend : i.count-k=0
      · rw [hend]
        rfl
      · rw [if_neg hend]

theorem freeFirstOne_eq_ok {i' : Inflights} (h : i.freeFirstOne=.ok i') :
    ∃ v, i.freeLE v=.ok i' := by
  unfold freeFirstOne at h
  split at h
  · cases h
  · rename_i v _
    exact ⟨v,h⟩

end Inflights

namespace Progress

/-- The window of a peer that is replicated to: indexes between Match and Next in ascending
order. In the other states nothing is in flight. n is the size of the window. -/
structure Paced (n : Nat) (pr : Progress) : Prop where
  ringed : pr.inflights.Ringed
  size : pr.inflights.size=n
  ahead : pr.state=.stateReplicate → pr.matchIndex<pr.next
  ascending : pr.inflights.window.Pairwise (·<·)
  within : ∀ v ∈ pr.inflights.window, pr.matchIndex<v ∧ v<pr.next
  idle : pr.state≠.stateReplicate → pr.inflights.window=[]

variable {n : Nat} {pr pr' : Progress}

/-- A peer with an empty window. -/
theorem paced_empty (hr : pr.inflights.Ringed) (hs : pr.inflights.size=n)
    (ha : pr.state=.stateReplicate → pr.matchIndex<pr.next) (hw : pr.inflights.window=[]) :
    pr.Paced n := by
  refine ⟨hr,hs,ha,?_,?_,fun _ => hw⟩
  · rw [hw]
    exact .nil
  · rw [hw]
    exact fun v hv => absurd hv List.not_mem_nil

namespace Paced

variable (h : pr.Paced n)
include h

theorem length_le : pr.inflights.window.length≤n := by
  rw [h.ringed.length,← h.size]
  exact h.ringed.laid.count

/-- Only what the window depends on counts. -/
theorem of_same (hm : pr'.matchIndex=pr.matchIndex) (hn : pr'.next=pr.next)
    (hs : pr'.state=pr.state) (hi : pr'.inflights=pr.inflights) : pr'.Paced n := by
  refine ⟨hi ▸ h.ringed,hi ▸ h.size,?_,hi ▸ h.ascending,?_,?_⟩
  · rw [hs,hm,hn]
    exact h.ahead
  · rw [hi,hm,hn]
    exact h.within
  · rw [hs,hi]
    exact h.idle

/-- A change of state empties the window. -/
theorem resetState {state : ProgressState} (hi : pr'.inflights=pr.inflights.reset)
    (hs : pr'.state=state) (ha : state=.stateReplicate → pr'.matchIndex<pr'.next) :
    pr'.Paced n := by
  refine paced_empty (hi ▸ h.ringed.reset) ?_ (hs ▸ ha) ?_
  · rw [hi]
    exact h.size
  · rw [hi]
    rfl

theorem becomeProbe : pr.becomeProbe.Paced n := by
  unfold Progress.becomeProbe
  split_ifs <;> exact h.resetState rfl rfl nofun

theorem becomeReplicate : pr.becomeReplicate.Paced n :=
  h.resetState rfl rfl (fun _ => Nat.lt_succ_self _)

theorem becomeSnapshot (i : Nat) : (pr.becomeSnapshot i).Paced n := h.resetState rfl rfl nofun

/-- Next may move up at any time. -/
theorem raise {k : Nat} (hm : pr'.matchIndex=pr.matchIndex) (hn : pr'.next=max pr.next k)
    (hs : pr'.state=pr.state) (hi : pr'.inflights=pr.inflights) : pr'.Paced n := by
  refine ⟨hi ▸ h.ringed,hi ▸ h.size,fun hr => ?_,hi ▸ h.ascending,fun v hv => ?_,?_⟩
  · have := h.ahead (hs ▸ hr)
    omega
  · rw [hi] at hv
    have := h.within v hv
    omega
  · rw [hs,hi]
    exact h.idle

/-- The indexes up to k are no longer in flight. -/
theorem freed {k : Nat} (hr : pr'.inflights.Ringed) (hsize : pr'.inflights.size=pr.inflights.size)
    (hw : pr'.inflights.window=pr.inflights.window.dropWhile (fun v => decide (v≤k)))
    (hs : pr'.state=pr.state) (ha : pr'.state=.stateReplicate → pr'.matchIndex<pr'.next)
    (hn : pr.next≤pr'.next) (hm : pr'.matchIndex=k ∨ pr'.matchIndex=pr.matchIndex) :
    pr'.Paced n := by
  have hsub : (pr.inflights.window.dropWhile (fun v => decide (v≤k))).Sublist
      pr.inflights.window := List.dropWhile_sublist _
  refine ⟨hr,hsize.trans h.size,ha,?_,fun v hv => ?_,fun hstate => ?_⟩
  · rw [hw]
    exact h.ascending.sublist hsub
  · rw [hw] at hv
    have hin := h.within v (hsub.subset hv)
    -- in an ascending list all that is left is larger than k
    have hgt : k<v := by
      have hasc := h.ascending.sublist hsub
      cases hd : pr.inflights.window.dropWhile (fun v => decide (v≤k)) with
      | nil =>
        rw [hd] at hv
        exact absurd hv List.not_mem_nil
      | cons w ws =>
        have hw' : ¬decide (w≤k)=true := by
          have hne : pr.inflights.window.dropWhile (fun v => decide (v≤k))≠[] := by
            rw [hd]
            exact List.cons_ne_nil _ _
          have := List.head_dropWhile_not (fun v => decide (v≤k)) hne
          simpa [hd] using this
        rw [hd] at hv hasc
        have hlt : k<w := by simpa using hw'
        rcases List.mem_cons.mp hv with rfl | hv
        · exact hlt
        · exact Nat.lt_trans hlt ((List.pairwise_cons.mp hasc).1 v hv)
    omega
  · rw [hw,h.idle (hs ▸ hstate)]
    rfl

/-- An append with entries up to last went out to a peer that is replicated to. -/
theorem sent {last : Nat} {i : Inflights} (hlast : pr.next≤last)
    (hs : pr.state=.stateReplicate) (hi : pr.inflights.add last=.ok i) :
    Paced n { pr.optimisticUpdate last with inflights := i } := by
  have hfull : pr.inflights.full=false := by
    unfold Inflights.add at hi
    split at hi
    · cases hi
    · rename_i hf
      exact Bool.eq_false_iff.mpr hf
  obtain ⟨i',hi',hr,hsize,hw⟩ := h.ringed.add hfull last
  rw [hi] at hi'
  cases hi'
  have hahead := h.ahead hs
  refine ⟨hr,hsize.trans h.size,fun _ => ?_,?_,fun v hv => ?_,fun hne => absurd hs hne⟩
  · change pr.matchIndex<last+1
    omega
  · change i.window.Pairwise (·<·)
    rw [hw]
    refine List.pairwise_append.mpr ⟨h.ascending,List.pairwise_singleton _ _,fun v hv w hwm => ?_⟩
    rw [List.mem_singleton.mp hwm]
    exact Nat.lt_of_lt_of_le (h.within v hv).2 hlast
  · change v ∈ i.window at hv
    change pr.matchIndex<v ∧ v<last+1
    rw [hw] at hv
    rcases List.mem_append.mp hv with hv | hv
    · have := h.within v hv
      omega
    · rw [List.mem_singleton.mp hv]
      omega

end Paced

/-- Match has advanced to k, which is acknowledged. -/
theorem maybeUpdate_fst (pr : Progress) (k : Nat) : (pr.maybeUpdate k).1={ pr with
    matchIndex := max pr.matchIndex k
    next := max pr.next (k+1)
    probeSent := if pr.matchIndex<k then false else pr.probeSent } := by
  unfold maybeUpdate probeAcked
  split_ifs with hlt
  · dsimp only
    rw [Nat.max_eq_right (Nat.le_of_lt hlt)]
  · dsimp only
    rw [Nat.max_eq_left (Nat.not_lt.mp hlt)]

/-- The leader's own progress, for which nothing is in flight. -/
theorem Paced.maybeUpdate_empty (h : pr.Paced n) (hw : pr.inflights.window=[]) (k : Nat) :
    (pr.maybeUpdate k).1.Paced n := by
  rw [maybeUpdate_fst]
  refine paced_empty h.ringed h.size (fun hs => ?_) hw
  have := h.ahead hs
  dsimp only
  omega

end Progress

end RaftTesting
