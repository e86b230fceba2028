import RaftTesting.Framework.SortedMap
import RaftTesting.Framework.Majority
import Mathlib.Data.List.Perm.Basic
import Mathlib.Data.List.Range

namespace RaftTesting

/-- quorum.VoteResult. -/
inductive VoteResult where
  | votePending
  | voteLost
  | voteWon
  deriving DecidableEq,Repr

/-- A quorum.MajorityConfig is a Go map; none is the nil map. -/
abbrev MajorityConfig := Option IdSet

namespace MajorityConfig

def slice (c : MajorityConfig) : List Nat := (c.getD ∅).keys

def len (c : MajorityConfig) : Nat := (slice c).length

def has (c : MajorityConfig) (id : Nat) : Bool := (c.getD ∅).contains id

def ids (c : MajorityConfig) : Finset Nat := (slice c).toFinset

@[simp] theorem mem_slice (c : MajorityConfig) (id : Nat) : id ∈ slice c ↔ has c id=true :=
  IdSet.mem_keys_contains _ id

@[simp] theorem mem_ids (c : MajorityConfig) (id : Nat) : id ∈ ids c ↔ has c id=true := by
  simp [ids]

theorem slice_nodup (c : MajorityConfig) : (slice c).Nodup := SortedMap.keys_nodup _

@[simp] theorem card_ids (c : MajorityConfig) : (ids c).card=len c :=
  List.toFinset_card_of_nodup (slice_nodup c)

theorem len_eq_zero (c : MajorityConfig) : len c=0 ↔ ∀ id, has c id=false := by
  rw [← card_ids,Finset.card_eq_zero,Finset.eq_empty_iff_forall_notMem]
  simp

@[simp] theorem has_none (id : Nat) : has none id=false := rfl
@[simp] theorem has_some (s : IdSet) (id : Nat) : has (some s) id=s.contains id := rfl
@[simp] theorem len_none : len none=0 := rfl
@[simp] theorem slice_none : slice none=[] := rfl

/-- The vote of each id of the config, counted as the source does: yes, no, missing. -/
def voteResult (c : MajorityConfig) (votes : SortedMap Bool) : VoteResult :=
  if len c=0 then .voteWon
  else
    let yes := ((slice c).filter (fun id => votes.get? id=some true)).length
    let missing := ((slice c).filter (fun id => votes.get? id=none)).length
    let q := len c/2+1
    if q≤yes then .voteWon
    else if q≤yes+missing then .votePending
    else .voteLost

theorem card_filter_ids (c : MajorityConfig) (p : Nat → Prop) [DecidablePred p] :
    ((ids c).filter p).card=((slice c).filter p).length := by
  have hn : ((slice c).filter p).Nodup := (slice_nodup c).filter _
  rw [← List.toFinset_card_of_nodup hn,List.toFinset_filter,ids]
  congr 1
  ext x
  simp

theorem voteResult_won (c : MajorityConfig) (votes : SortedMap Bool) :
    voteResult c votes=.voteWon ↔
      len c=0 ∨ MajorityOf (ids c) (fun id => votes.get? id=some true) := by
  have hm := MajorityOf.iff_filter (ids c) (fun id => votes.get? id=some true)
  simp only [decide_eq_true_eq] at hm
  rw [hm,card_ids,card_filter_ids]
  simp only [voteResult]
  split_ifs <;> simp only [true_iff,false_iff] <;> omega

end MajorityConfig

/-- One inner loop of the hand-written insertionSort: the element at position j
is swapped to the left while it is smaller than its neighbour. -/
def sinkLeft (sl : List Nat) : Nat → List Nat
  | 0 => sl
  | j+1 =>
      if sl.getD (j+1) 0<sl.getD j 0 then
        sinkLeft ((sl.set (j+1) (sl.getD j 0)).set j (sl.getD (j+1) 0)) j
      else sl

def insertionSort (sl : List Nat) : List Nat :=
  (List.range (sl.length-1)).foldl (fun l i => sinkLeft l (i+1)) sl

theorem getD_swap (sl : List Nat) (i j k : Nat) (hi : i<sl.length) (hj : j<sl.length) :
    ((sl.set i (sl.getD j 0)).set j (sl.getD i 0)).getD k 0=
      if k=j then sl.getD i 0 else if k=i then sl.getD j 0 else sl.getD k 0 := by
  simp only [List.getD_eq_getElem?_getD,List.getElem?_set,List.length_set]
  by_cases hkj : j=k
  · subst hkj; simp [hj]
  · by_cases hki : i=k
    · subst hki; simp [hkj,hi,Ne.symm hkj]
    · simp [hkj,hki,Ne.symm hkj,Ne.symm hki]

theorem swap_perm (sl : List Nat) (i j : Nat) (hi : i<sl.length) (hj : j<sl.length) :
    List.Perm ((sl.set i (sl.getD j 0)).set j (sl.getD i 0)) sl := by
  have h := List.set_set_perm hi hj
  simpa [List.getD_eq_getElem?_getD,hi,hj] using h

theorem sinkLeft_perm (sl : List Nat) (j : Nat) (hj : j<sl.length) :
    List.Perm (sinkLeft sl j) sl := by
  induction j generalizing sl with
  | zero => exact List.Perm.refl _
  | succ j ih =>
    simp only [sinkLeft]
    split_ifs with h
    · exact (ih _ (by simp; omega)).trans (swap_perm sl (j+1) j hj (by omega))
    · exact List.Perm.refl _

/-- The first n elements ascend. -/
def AscendTo (l : List Nat) (n : Nat) : Prop :=
  ∀ a b, a<b → b<n → l.getD a 0≤l.getD b 0

/-- The loop invariant: apart from position j the first n elements ascend, and
those to the right of j are not below it. -/
theorem sinkLeft_ascend (l : List Nat) (j n : Nat) (hj : j<n) (hn : n≤l.length)
    (hrest : ∀ a b, a<b → b<n → a≠j → b≠j → l.getD a 0≤l.getD b 0)
    (hright : ∀ b, j<b → b<n → l.getD j 0≤l.getD b 0) :
    AscendTo (sinkLeft l j) n := by
  induction j generalizing l with
  | zero =>
    intro a b hab hb
    by_cases ha : a=0
    · subst ha; exact hright b hab hb
    · exact hrest a b hab hb ha (by omega)
  | succ j ih =>
    simp only [sinkLeft]
    split_ifs with h
    · have hg := fun k => getD_swap l (j+1) j k (by omega) (by omega)
      apply ih _ (by omega) (by simpa using hn)
      · intro a b hab hb haj hbj
        rw [hg,hg,if_neg haj,if_neg hbj]
        split_ifs with ha hb'
        · exact absurd hab (by omega)
        · exact hrest j b (by omega) hb (by omega) (by omega)
        · exact hrest a j (by omega) (by omega) ha (by omega)
        · exact hrest a b hab hb ha (by omega)
      · intro b hjb hb
        rw [hg,hg,if_pos rfl,if_neg (by omega)]
        split_ifs with hb'
        · exact h.le
        · exact hright b (by omega) hb
    · intro a b hab hb
      by_cases ha : a=j+1
      · subst ha; exact hright b hab hb
      by_cases hb' : b=j+1
      · subst hb'
        have hle : l.getD j 0≤l.getD (j+1) 0 := by omega
        by_cases haj : a=j
        · subst haj; exact hle
        · exact (hrest a j (by omega) (by omega) ha (by omega)).trans hle
      · exact hrest a b hab hb ha hb'

theorem insertionSort_spec (sl : List Nat) :
    List.Perm (insertionSort sl) sl ∧ AscendTo (insertionSort sl) sl.length := by
  have key : ∀ n, n ≤ sl.length-1 →
      let l := (List.range n).foldl (fun l i => sinkLeft l (i+1)) sl
      List.Perm l sl ∧ AscendTo l (n+1) := by
    intro n hn
    induction n with
    | zero => exact ⟨List.Perm.refl _,fun a b hab hb => absurd hab (by omega)⟩
    | succ n ih =>
      obtain ⟨hp,ha⟩ := ih (by omega)
      rw [List.range_succ,List.foldl_append]
      dsimp only [List.foldl_cons,List.foldl_nil]
      have hl := hp.length_eq
      refine ⟨(sinkLeft_perm _ _ (by omega)).trans hp,?_⟩
      apply sinkLeft_ascend _ _ _ (by omega) (by omega)
      · intro a b hab hb hna hnb
        exact ha a b hab (by omega)
      · intro b hb hb'
        exact absurd hb (by omega)
  obtain ⟨hp,ha⟩ := key (sl.length-1) (le_refl _)
  exact ⟨hp,fun a b hab hb => ha a b hab (by omega)⟩

def maxUint64 : Nat := 2^64-1

namespace MajorityConfig

/-- The slice srt of the source: the acknowledged indexes filled in from the
right, zeroes for the voters that have not reported. -/
def ackedSlots (c : MajorityConfig) (l : Nat → Option Nat) : List Nat :=
  let acked := (slice c).filterMap l
  List.replicate (len c-acked.length) 0++acked.reverse

def committedIndex (c : MajorityConfig) (l : Nat → Option Nat) : Nat :=
  if len c=0 then maxUint64
  else (insertionSort (ackedSlots c l)).getD (len c-(len c/2+1)) 0

theorem ackedSlots_length (c : MajorityConfig) (l : Nat → Option Nat) :
    (ackedSlots c l).length=len c := by
  have : ((slice c).filterMap l).length≤len c := List.length_filterMap_le _ _
  simp only [ackedSlots,List.length_append,List.length_replicate,List.length_reverse]
  omega

theorem countP_ackedSlots (c : MajorityConfig) (l : Nat → Option Nat) (i : Nat) (hi : 0 < i) :
    (ackedSlots c l).countP (fun v => i≤v)=
      ((slice c).filter (fun id => ∃ v, l id=some v ∧ i≤v)).length := by
  simp only [ackedSlots,List.countP_append,List.countP_reverse,List.countP_replicate]
  rw [if_neg (by simp; omega),zero_add,List.countP_filterMap,← List.countP_eq_length_filter]
  congr 1
  funext id
  cases h : l id <;> simp

/-- In an ascending list everything from position p on is at least the element
at p. -/
theorem countP_of_ascend (l : List Nat) (p i : Nat) (hp : p<l.length)
    (ha : AscendTo l l.length) (hi : i≤l.getD p 0) :
    l.length-p≤l.countP (fun v => i≤v) := by
  have hall : ∀ v ∈ l.drop p, i≤v := by
    intro v hv
    obtain ⟨k,hk,rfl⟩ := List.getElem_of_mem hv
    simp only [List.length_drop] at hk
    rw [List.getElem_drop]
    have hge : l.getD p 0≤l.getD (p+k) 0 := by
      rcases Nat.eq_zero_or_pos k with rfl | hk0
      · exact le_refl _
      · exact ha p (p+k) (by omega) (by omega)
    have he : l.getD (p+k) 0=l[p+k] := by
      simp [List.getD_eq_getElem?_getD,List.getElem?_eq_getElem (show p+k<l.length by omega)]
    omega
  have hd : (l.drop p).countP (fun v => i≤v)=(l.drop p).length :=
    List.countP_eq_length.mpr (by simpa using hall)
  have hs := (List.drop_sublist p l).countP_le (p := fun v => decide (i≤v))
  rw [hd,List.length_drop] at hs
  exact hs

theorem committedIndex_majority (c : MajorityConfig) (l : Nat → Option Nat) (i : Nat)
    (hi : 0 < i) (hc : i≤committedIndex c l) :
    len c=0 ∨ MajorityOf (ids c) (fun id => ∃ v, l id=some v ∧ i≤v) := by
  by_cases h0 : len c=0
  · exact .inl h0
  right
  obtain ⟨hp,ha⟩ := insertionSort_spec (ackedSlots c l)
  have hl := hp.length_eq
  rw [ackedSlots_length] at hl ha
  simp only [committedIndex,if_neg h0] at hc
  have hcount := countP_of_ascend _ _ i (by omega) (by rw [hl]; exact ha) hc
  rw [hp.countP_eq,countP_ackedSlots c l i hi,hl] at hcount
  have hm := MajorityOf.iff_filter (ids c) (fun id => ∃ v, l id=some v ∧ i≤v)
  simp only [decide_eq_true_eq] at hm
  rw [hm,card_ids,card_filter_ids]
  omega

end MajorityConfig

end RaftTesting
