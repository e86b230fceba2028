import Mathlib.Order.Bounds.Basic
import RaftTesting.Quorum.Joint

namespace RaftTesting

/-- In an ascending list the element at p is at least i exactly when the elements from p on
are as many as those that are at least i. -/
theorem AscendTo.le_getD_iff {l : List Nat} {p i : Nat} (ha : AscendTo l l.length)
    (hp : p<l.length) : i≤l.getD p 0 ↔ l.length-p≤l.countP (fun v => i≤v) := by
  refine ⟨fun hi => MajorityConfig.countP_of_ascend l p i hp ha hi,fun hc => ?_⟩
  by_contra hi
  -- everything up to p is below i, so only the elements behind p can count
  have hfront : (l.take (p+1)).countP (fun v => i≤v)=0 := by
    apply List.countP_eq_zero.mpr
    intro v hv
    obtain ⟨k,hk,rfl⟩ := List.getElem_of_mem hv
    rw [List.length_take] at hk
    have hle : l.getD k 0≤l.getD p 0 := by
      rcases Nat.lt_or_ge k p with hkp | hkp
      · exact ha k p hkp hp
      · rw [show k=p by omega]
    have he : l.getD k 0=l[k] := by
      simp [List.getD_eq_getElem?_getD,List.getElem?_eq_getElem (show k<l.length by omega)]
    rw [List.getElem_take,decide_eq_true_eq]
    omega
  have hback : (l.drop (p+1)).countP (fun v => i≤v)≤l.length-(p+1) := by
    rw [← List.length_drop]
    exact List.countP_le_length
  have hsplit : l.countP (fun v => i≤v)=(l.take (p+1)).countP (fun v => i≤v)+
      (l.drop (p+1)).countP (fun v => i≤v) := by
    rw [← List.countP_append,List.take_append_drop]
  rw [hfront] at hsplit
  omega

namespace MajorityConfig

/-- srt, filled while range visits the ids in the given order. -/
def slotsIn (order : List Nat) (l : Nat → Option Nat) : List Nat :=
  let acked := order.filterMap l
  List.replicate (order.length-acked.length) 0++acked.reverse

/-- CommittedIndex of the config whose ids range visits in the given order. -/
def committedIndexIn (order : List Nat) (l : Nat → Option Nat) : Nat :=
  if order.length=0 then maxUint64
  else (insertionSort (slotsIn order l)).getD (order.length-(order.length/2+1)) 0

theorem committedIndex_eq (c : MajorityConfig) (l : Nat → Option Nat) :
    committedIndex c l=committedIndexIn (slice c) l := rfl

/-- The voters of the order that have acknowledged i, one that has not reported counting
as if it had acknowledged 0. -/
def ackCount (order : List Nat) (l : Nat → Option Nat) (i : Nat) : Nat :=
  (order.filter (fun id => i≤(l id).getD 0)).length

/-- Wherever the zeroes end up, each voter has one slot. -/
theorem slotsIn_perm (order : List Nat) (l : Nat → Option Nat) :
    List.Perm (slotsIn order l) (order.map (fun id => (l id).getD 0)) := by
  induction order with
  | nil => exact List.Perm.refl _
  | cons id order ih =>
    have hle : (order.filterMap l).length≤order.length := List.length_filterMap_le _ _
    simp only [slotsIn,List.map_cons] at ih ⊢
    cases hl : l id with
    | none =>
      rw [List.filterMap_cons_none hl,List.length_cons,
        show order.length+1-(order.filterMap l).length=order.length-(order.filterMap l).length+1
          by omega,List.replicate_succ,List.cons_append]
      exact ih.cons 0
    | some v =>
      rw [List.filterMap_cons_some hl,List.length_cons,List.length_cons,Nat.add_sub_add_right,
        List.reverse_cons,← List.append_assoc]
      exact (List.perm_append_singleton v _).trans (ih.cons v)

section

variable {order : List Nat} {l : Nat → Option Nat} {i : Nat}

theorem countP_slotsIn : (slotsIn order l).countP (fun v => i≤v)=ackCount order l i := by
  rw [(slotsIn_perm order l).countP_eq,List.countP_map,List.countP_eq_length_filter]
  rfl

/-- The element that CommittedIndex picks is acknowledged by a quorum, and nothing above
it is. -/
theorem le_committedIndexIn (h0 : order.length≠0) :
    i≤committedIndexIn order l ↔ order.length/2+1≤ackCount order l i := by
  obtain ⟨hp,ha⟩ := insertionSort_spec (slotsIn order l)
  have hlen : (insertionSort (slotsIn order l)).length=order.length := by
    rw [hp.length_eq,(slotsIn_perm order l).length_eq,List.length_map]
  have hasc : AscendTo (insertionSort (slotsIn order l)) (insertionSort (slotsIn order l)).length := by
    rwa [hp.length_eq]
  unfold committedIndexIn
  rw [if_neg h0,hasc.le_getD_iff (by omega),hlen,hp.countP_eq,countP_slotsIn]
  omega

theorem ackCount_perm {order' : List Nat} (h : List.Perm order order') :
    ackCount order l i=ackCount order' l i := (h.filter _).length_eq

/-- The order in which the map is visited does not matter. -/
theorem committedIndexIn_perm {order' : List Nat} (h : List.Perm order order') :
    committedIndexIn order l=committedIndexIn order' l := by
  by_cases h0 : order.length=0
  · unfold committedIndexIn
    rw [if_pos h0,if_pos (h.length_eq ▸ h0)]
  · apply Nat.le_antisymm
    · rw [le_committedIndexIn (h.length_eq ▸ h0),← h.length_eq,← ackCount_perm h]
      exact (le_committedIndexIn h0).mp le_rfl
    · rw [le_committedIndexIn h0,h.length_eq,ackCount_perm h]
      exact (le_committedIndexIn (h.length_eq ▸ h0)).mp le_rfl

/-- The index that is returned is zero or was reported by some voter. -/
theorem committedIndexIn_mem (h0 : order.length≠0) :
    committedIndexIn order l=0 ∨ ∃ id ∈ order, l id=some (committedIndexIn order l) := by
  obtain ⟨hp,-⟩ := insertionSort_spec (slotsIn order l)
  have hlen : (insertionSort (slotsIn order l)).length=order.length := by
    rw [hp.length_eq,(slotsIn_perm order l).length_eq,List.length_map]
  have hmem : committedIndexIn order l ∈ slotsIn order l := by
    apply hp.mem_iff.mp
    unfold committedIndexIn
    rw [if_neg h0,List.getD_eq_getElem?_getD,List.getElem?_eq_getElem (by omega)]
    exact List.getElem_mem _
  obtain ⟨id,hid,he⟩ := List.mem_map.mp ((slotsIn_perm order l).mem_iff.mp hmem)
  cases hl : l id with
  | none =>
    rw [hl] at he
    exact .inl he.symm
  | some v =>
    rw [hl] at he
    exact .inr ⟨id,hid,hl.trans (congrArg some he)⟩

end

/-- idToIdx of the tests: what the voters among ids have reported. -/
def reported (ids : List Nat) (l : Nat → Option Nat) : SortedMap Nat :=
  ids.foldl (fun m id =>
    match l id with
    | some idx => m.insert id idx
    | none => m) ∅

/-- idxToVotes of the tests: for each reported index how many of them are not below it. -/
def votesFor (idxs : List Nat) : SortedMap Nat :=
  idxs.foldl (fun m idx => m.mapVals (fun idy n => if idx < idy then n else n+1))
    (idxs.foldl (fun m idx => m.insert idx 0) ∅)

/-- The definition that the tests compare with. -/
def alternativeMajorityCommittedIndex (c : MajorityConfig) (l : Nat → Option Nat) : Nat :=
  if len c=0 then maxUint64
  else
    let idToIdx := reported (slice c) l
    let idxToVotes := votesFor (idToIdx.keys.filterMap idToIdx.get?)
    let q := len c/2+1
    idxToVotes.keys.foldl (fun maxQuorumIdx idx =>
      if q≤(idxToVotes.get? idx).getD 0 ∧ maxQuorumIdx < idx then idx else maxQuorumIdx) 0

/-- A loop that keeps the largest element that passes a test. -/
theorem foldl_largest (p : Nat → Prop) [DecidablePred p] (ks : List Nat) (b r : Nat)
    (hr : ks.foldl (fun best k => if p k ∧ best<k then k else best) b=r) :
    b≤r ∧ (∀ k ∈ ks, p k → k≤r) ∧ (r=b ∨ r ∈ ks ∧ p r) := by
  induction ks generalizing b with
  | nil => exact ⟨hr.le,fun k hk => absurd hk List.not_mem_nil,.inl hr.symm⟩
  | cons k ks ih =>
    rw [List.foldl_cons] at hr
    obtain ⟨hb,hall,hor⟩ := ih _ hr
    have hstep : b≤r ∧ (p k → k≤r) := by
      split_ifs at hb with h
      · exact ⟨h.2.le.trans hb,fun _ => hb⟩
      · exact ⟨hb,fun hk => (Nat.not_lt.mp (fun hlt => h ⟨hk,hlt⟩)).trans hb⟩
    refine ⟨hstep.1,?_,?_⟩
    · intro k' hk' hp
      rcases List.mem_cons.mp hk' with rfl | hk'
      · exact hstep.2 hp
      · exact hall k' hk' hp
    · rcases hor with hor | ⟨hmem,hp⟩
      · split_ifs at hor with h
        · rw [hor]
          exact .inr ⟨List.mem_cons_self,h.1⟩
        · exact .inl hor
      · exact .inr ⟨List.mem_cons_of_mem _ hmem,hp⟩

section

variable {l : Nat → Option Nat}

theorem get?_reported (ids : List Nat) (id : Nat) :
    (reported ids l).get? id=if id ∈ ids then l id else none := by
  have hfold : ∀ m : SortedMap Nat, (ids.foldl (fun m id => match l id with
      | some idx => m.insert id idx
      | none => m) m).get? id=if id ∈ ids ∧ (l id).isSome then l id else m.get? id := by
    induction ids with
    | nil => simp
    | cons id' ids ih =>
      intro m
      rw [List.foldl_cons,ih]
      by_cases hid : id=id'
      · subst hid
        cases hl : l id <;> simp
      · cases l id' with
        | none => simp [hid]
        | some v => simp [hid,SortedMap.get?_insert_ne _ _ hid]
  unfold reported
  rw [hfold]
  cases l id <;> simp

/-- The reported indexes, one for each voter that has reported. -/
theorem reported_perm {ids : List Nat} (hids : ids.Nodup) :
    List.Perm ((reported ids l).keys.filterMap (reported ids l).get?) (ids.filterMap l) := by
  have hmem : ∀ id, id ∈ (reported ids l).keys ↔ id ∈ ids ∧ (l id).isSome := by
    intro id
    rw [SortedMap.mem_keys,get?_reported]
    split_ifs with h <;> simp [h]
  have hkeys : List.Perm (reported ids l).keys (ids.filter (fun id => (l id).isSome)) := by
    rw [List.perm_ext_iff_of_nodup (reported ids l).keys_nodup (hids.filter _)]
    intro id
    rw [hmem,List.mem_filter]
  have hsame : (reported ids l).keys.filterMap (reported ids l).get?=
      (reported ids l).keys.filterMap l := by
    apply List.filterMap_congr
    intro id hid
    rw [get?_reported,if_pos ((hmem id).mp hid).1]
  rw [hsame]
  refine (hkeys.filterMap l).trans (.of_eq ?_)
  rw [List.filterMap_filter]
  apply List.filterMap_congr
  intro id _
  cases l id <;> rfl

theorem get?_votesFor (idxs : List Nat) (idy : Nat) : (votesFor idxs).get? idy=
    if idy ∈ idxs then some (idxs.countP (fun idx => idy ≤ idx)) else none := by
  have hzero : ∀ (is : List Nat) (m : SortedMap Nat),
      (is.foldl (fun m idx => m.insert idx 0) m).get? idy=
        if idy ∈ is then some 0 else m.get? idy := by
    intro is
    induction is with
    | nil => simp
    | cons i is ih =>
      intro m
      rw [List.foldl_cons,ih]
      by_cases hi : idy=i
      · subst hi
        simp
      · simp [hi,SortedMap.get?_insert_ne _ _ hi]
  -- each round adds one to the indexes up to the one reported
  have hrounds : ∀ (is : List Nat) (m : SortedMap Nat),
      (is.foldl (fun m idx => m.mapVals (fun idy n => if idx < idy then n else n+1)) m).get? idy=
        (m.get? idy).map (fun n => n+is.countP (fun idx => idy ≤ idx)) := by
    intro is
    induction is with
    | nil => simp
    | cons i is ih =>
      intro m
      rw [List.foldl_cons,ih,SortedMap.get?_mapVals,List.countP_cons]
      cases m.get? idy with
      | none => rfl
      | some n =>
        simp only [Option.map_some,Option.some.injEq,decide_eq_true_eq]
        split_ifs <;> omega
  unfold votesFor
  rw [hrounds,hzero]
  split_ifs <;> simp

theorem ackCount_reported (order : List Nat) {i : Nat} (hi : 0 < i) :
    ackCount order l i=(order.filterMap l).countP (fun idx => i ≤ idx) := by
  rw [List.countP_filterMap,ackCount,← List.countP_eq_length_filter]
  congr 1
  funext id
  cases l id with
  | none => simp; omega
  | some v => simp

theorem alternative_eq (c : MajorityConfig) (l : Nat → Option Nat) :
    alternativeMajorityCommittedIndex c l=committedIndex c l := by
  rw [committedIndex_eq]
  unfold alternativeMajorityCommittedIndex
  by_cases h0 : len c=0
  · rw [if_pos h0]
    exact (if_pos h0).symm
  rw [if_neg h0]
  dsimp only
  have hperm := reported_perm (l := l) (slice_nodup c)
  generalize (reported (slice c) l).keys.filterMap (reported (slice c) l).get?=idxs at hperm ⊢
  generalize hr : (votesFor idxs).keys.foldl _ 0=r
  obtain ⟨-,hall,hor⟩ := foldl_largest _ _ _ _ hr
  have hkey : ∀ idx, idx ∈ (votesFor idxs).keys ↔ idx ∈ idxs := by
    intro idx
    rw [SortedMap.mem_keys,get?_votesFor]
    split_ifs with h <;> simp [h]
  -- above zero the two ways of counting agree
  have hcount : ∀ idx, 0 < idx → idx ∈ idxs →
      ((votesFor idxs).get? idx).getD 0=ackCount (slice c) l idx := by
    intro idx hpos hmem
    rw [get?_votesFor,if_pos hmem,ackCount_reported _ hpos,hperm.countP_eq]
    rfl
  apply Nat.le_antisymm
  · rcases Nat.eq_zero_or_pos r with rfl | hpos
    · exact Nat.zero_le _
    obtain ⟨hmem,hq⟩ := hor.resolve_left (by omega)
    rw [hcount r hpos ((hkey r).mp hmem)] at hq
    exact (le_committedIndexIn h0).mpr hq
  · rcases Nat.eq_zero_or_pos (committedIndexIn (slice c) l) with hz | hpos
    · rw [hz]
      exact Nat.zero_le _
    obtain ⟨id,hid,hl⟩ := (committedIndexIn_mem (l := l) h0).resolve_left (by omega)
    have hmem : committedIndexIn (slice c) l ∈ idxs :=
      hperm.mem_iff.mpr (List.mem_filterMap.mpr ⟨id,hid,hl⟩)
    apply hall _ ((hkey _).mpr hmem)
    rw [hcount _ hpos hmem]
    exact (le_committedIndexIn h0).mp le_rfl

end

/-- A quorum of the config has acknowledged i; an empty config has no objection. -/
def Committed (c : MajorityConfig) (l : Nat → Option Nat) (i : Nat) : Prop :=
  len c=0 ∨ len c/2+1≤ackCount (slice c) l i

section

variable {l : Nat → Option Nat} {i : Nat}

theorem le_committedIndex (c : MajorityConfig) (hi : i ≤ maxUint64) :
    i≤committedIndex c l ↔ Committed c l i := by
  unfold Committed
  by_cases h0 : len c=0
  · unfold committedIndex
    rw [if_pos h0]
    simp [h0,hi]
  · rw [committedIndex_eq,le_committedIndexIn h0]
    simp only [h0,false_or]
    rfl

/-- Where one voter decides alone, what it has acknowledged is committed. -/
theorem committedIndex_single (c : JointConfig) {id v : Nat} (hin : len c.incoming=1)
    (hout : len c.outgoing=0) (hid : has c.incoming id=true) (hl : l id=some v)
    (hv : v ≤ maxUint64) : c.committedIndex l=v := by
  have hslice : slice c.incoming=[id] := by
    obtain ⟨a,ha⟩ := List.length_eq_one_iff.mp hin
    have hmem := (mem_slice c.incoming id).mpr hid
    rw [ha,List.mem_singleton] at hmem
    rw [ha,hmem]
  have hcount : ∀ i, i≤committedIndex c.incoming l ↔ i≤v := by
    intro i
    rw [committedIndex_eq,le_committedIndexIn (by rw [hslice]; exact Nat.one_ne_zero),
      hslice]
    unfold ackCount
    by_cases hi : i≤v <;> simp [hl,hi]
  have hfirst : committedIndex c.incoming l=v := eq_of_forall_le_iff hcount
  have hsecond : committedIndex c.outgoing l=maxUint64 := if_pos hout
  unfold JointConfig.committedIndex
  rw [hfirst,hsecond]
  dsimp only
  split_ifs <;> omega

/-- Reported indexes fit a machine word, and so does the one that is picked. -/
theorem committedIndex_le (c : MajorityConfig) (hl : ∀ id v, l id=some v → v ≤ maxUint64) :
    committedIndex c l ≤ maxUint64 := by
  by_cases h0 : len c=0
  · unfold committedIndex
    rw [if_pos h0]
  · rcases committedIndexIn_mem (l := l) h0 with hz | ⟨id,-,hid⟩
    · rw [committedIndex_eq,hz]
      exact Nat.zero_le _
    · exact hl id _ hid

/-- A vote of yes from those who have acknowledged i wins when i is committed. -/
theorem voteResult_acked (c : MajorityConfig) (hi : 0 < i) {votes : SortedMap Bool}
    (hv : ∀ id, has c id=true → (votes.get? id=some true ↔ ∃ v, l id=some v ∧ i≤v)) :
    voteResult c votes=.voteWon ↔ Committed c l i := by
  have hcount : ((slice c).filter (fun id => votes.get? id=some true)).length=
      ackCount (slice c) l i := by
    unfold ackCount
    congr 1
    apply List.filter_congr
    intro id hid
    rw [decide_eq_decide,hv id ((mem_slice c id).mp hid)]
    cases l id with
    | none => simp; omega
    | some v => simp
  unfold voteResult Committed
  dsimp only
  rw [hcount]
  split_ifs with h0 hq <;> simp [*]

end

end MajorityConfig

namespace JointConfig

open MajorityConfig

/-- CommittedIndex is the order statistic of the quorum, in whatever order the maps are
visited, and agrees with the counting of votes. -/
theorem committedIndex_exact (c : JointConfig) (l : Nat → Option Nat)
    (hl : ∀ id v, l id=some v → v ≤ maxUint64) :
    (∀ m order, len m≠0 → List.Perm order (slice m) →
      IsGreatest {i | len m/2+1≤ackCount order l i} (committedIndexIn order l) ∧
      committedIndexIn order l=MajorityConfig.committedIndex m l ∧
      committedIndexIn order l=alternativeMajorityCommittedIndex m l ∧
      ∀ i votes, 0 < i → (∀ id, has m id=true →
        (votes.get? id=some true ↔ ∃ v, l id=some v ∧ i≤v)) →
        (i≤committedIndexIn order l ↔ MajorityConfig.voteResult m votes=.voteWon)) ∧
    IsGreatest {i | i ≤ maxUint64 ∧ Committed c.incoming l i ∧ Committed c.outgoing l i}
      (c.committedIndex l) ∧
    (len c.outgoing=0 → c.committedIndex l=MajorityConfig.committedIndex c.incoming l) ∧
    (len c.incoming=0 → c.committedIndex l=MajorityConfig.committedIndex c.outgoing l) ∧
    ∀ i votes, 0 < i → i ≤ maxUint64 →
      (∀ id, c.ids.contains id=true → (votes.get? id=some true ↔ ∃ v, l id=some v ∧ i≤v)) →
      (i≤c.committedIndex l ↔ c.voteResult votes=.voteWon) := by
  have hmin : ∀ i, i≤c.committedIndex l ↔ i≤MajorityConfig.committedIndex c.incoming l ∧
      i≤MajorityConfig.committedIndex c.outgoing l := by
    intro i
    unfold committedIndex
    dsimp only
    split_ifs <;> omega
  have hempty : ∀ m, len m=0 → MajorityConfig.committedIndex m l=maxUint64 := fun m h0 => if_pos h0
  refine ⟨?_,⟨?_,?_⟩,?_,?_,?_⟩
  · intro m order h0 hperm
    have hlen : order.length=len m := hperm.length_eq
    have hsame := committedIndexIn_perm (l := l) hperm
    have hle : ∀ i, i≤committedIndexIn order l ↔ len m/2+1≤ackCount order l i := by
      intro i
      rw [← hlen]
      exact le_committedIndexIn (hlen ▸ h0)
    refine ⟨⟨(hle _).mp le_rfl,fun i hi => (hle i).mpr hi⟩,hsame,?_,?_⟩
    · rw [alternative_eq]
      exact hsame
    · intro i votes hi hv
      rw [hle,ackCount_perm hperm,voteResult_acked m hi hv]
      exact (or_iff_right h0).symm
  · obtain ⟨h1,h2⟩ := (hmin _).mp (le_refl (c.committedIndex l))
    have hle := h1.trans (committedIndex_le c.incoming hl)
    exact ⟨hle,(le_committedIndex _ hle).mp h1,(le_committedIndex _ hle).mp h2⟩
  · rintro i ⟨hle,h1,h2⟩
    exact (hmin i).mpr ⟨(le_committedIndex _ hle).mpr h1,(le_committedIndex _ hle).mpr h2⟩
  · intro h0
    have hle := committedIndex_le c.incoming hl
    have hall := hmin (c.committedIndex l)
    have hinc := hmin (MajorityConfig.committedIndex c.incoming l)
    rw [hempty _ h0] at hall hinc
    exact Nat.le_antisymm (hall.mp le_rfl).1 (hinc.mpr ⟨le_rfl,hle⟩)
  · intro h0
    have hle := committedIndex_le c.outgoing hl
    have hall := hmin (c.committedIndex l)
    have hout := hmin (MajorityConfig.committedIndex c.outgoing l)
    rw [hempty _ h0] at hall hout
    exact Nat.le_antisymm (hall.mp le_rfl).2 (hout.mpr ⟨hle,le_rfl⟩)
  · intro i votes hi hle hv
    have hin := voteResult_acked c.incoming hi (fun id hid => hv id (by simp [hid]))
    have hout := voteResult_acked c.outgoing hi (fun id hid => hv id (by simp [hid]))
    rw [hmin,le_committedIndex _ hle,le_committedIndex _ hle,← hin,← hout]
    unfold voteResult
    dsimp only
    cases MajorityConfig.voteResult c.incoming votes <;>
      cases MajorityConfig.voteResult c.outgoing votes <;> simp

/-- Five voters, visited backwards, of which the last has not reported: three have
acknowledged 4, so 4 is committed. -/
theorem committedIndex_exact_five :
    IsGreatest {i | 3≤ackCount [5,4,3,2,1] (fun id => [4,2,9,7][id-1]?) i} 4 := by
  have hl : ∀ id v, ([4,2,9,7] : List Nat)[id-1]?=some v → v ≤ maxUint64 := by
    intro id v hv
    have hmem := List.mem_of_getElem? hv
    have hsmall : ∀ v ∈ ([4,2,9,7] : List Nat), v ≤ maxUint64 := by decide
    exact hsmall v hmem
  have hfive := (committedIndex_exact ⟨some (IdSet.ofList [1,2,3,4,5]),none⟩ _ hl).1
    (some (IdSet.ofList [1,2,3,4,5])) [5,4,3,2,1] (by decide) (by decide)
  have hvalue : committedIndexIn [5,4,3,2,1] (fun id => [4,2,9,7][id-1]?)=4 := by decide
  rw [← hvalue]
  exact hfive.1

end JointConfig

end RaftTesting
