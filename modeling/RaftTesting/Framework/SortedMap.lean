import Mathlib.Data.List.Basic
import Mathlib.Data.Finset.Card
import Mathlib.Tactic.SplitIfs

namespace RaftTesting

/-- A finite map with natural keys, kept strictly sorted so that two maps with
the same lookups are equal and iteration visits the keys in ascending order. -/
structure SortedMap (α : Type) where
  pairs : List (Nat × α)
  sorted : pairs.Pairwise (fun a b => a.1<b.1)
  deriving DecidableEq

namespace SortedMap

variable {α β : Type}

def lookupIn (k : Nat) : List (Nat × α) → Option α
  | [] => none
  | (k',v)::l => if k=k' then some v else lookupIn k l

def insertIn (k : Nat) (v : α) : List (Nat × α) → List (Nat × α)
  | [] => [(k,v)]
  | (k',v')::l =>
      if k<k' then (k,v)::(k',v')::l
      else if k=k' then (k,v)::l
      else (k',v')::insertIn k v l

theorem mem_insertIn {k : Nat} {v : α} {l : List (Nat × α)} {p : Nat × α}
    (h : p ∈ insertIn k v l) : p=(k,v) ∨ p ∈ l := by
  induction l with
  | nil => simpa [insertIn] using h
  | cons q l ih =>
    obtain ⟨k',v'⟩ := q
    simp only [insertIn] at h
    split_ifs at h with hlt heq
    · simpa using h
    · rcases List.mem_cons.mp h with h | h
      · exact .inl h
      · exact .inr (List.mem_cons_of_mem _ h)
    · rcases List.mem_cons.mp h with h | h
      · exact .inr (by simp [h])
      · rcases ih h with h | h
        · exact .inl h
        · exact .inr (List.mem_cons_of_mem _ h)

theorem insertIn_sorted (k : Nat) (v : α) (l : List (Nat × α))
    (h : l.Pairwise (fun a b => a.1<b.1)) :
    (insertIn k v l).Pairwise (fun a b => a.1<b.1) := by
  induction l with
  | nil => simp [insertIn]
  | cons q l ih =>
    obtain ⟨k',v'⟩ := q
    obtain ⟨hq,hl⟩ := List.pairwise_cons.mp h
    simp only [insertIn]
    split_ifs with hlt heq
    · refine List.pairwise_cons.mpr ⟨?_,h⟩
      intro p hp
      rcases List.mem_cons.mp hp with rfl | hp
      · exact hlt
      · exact hlt.trans (hq p hp)
    · subst heq
      exact List.pairwise_cons.mpr ⟨hq,hl⟩
    · refine List.pairwise_cons.mpr ⟨?_,ih hl⟩
      intro p hp
      rcases mem_insertIn hp with rfl | hp
      · change k'<k; omega
      · exact hq p hp

def empty : SortedMap α := ⟨[],List.Pairwise.nil⟩

instance : EmptyCollection (SortedMap α) := ⟨empty⟩
instance : Inhabited (SortedMap α) := ⟨empty⟩

def get? (m : SortedMap α) (k : Nat) : Option α := lookupIn k m.pairs

def insert (m : SortedMap α) (k : Nat) (v : α) : SortedMap α :=
  ⟨insertIn k v m.pairs,insertIn_sorted k v m.pairs m.sorted⟩

def erase (m : SortedMap α) (k : Nat) : SortedMap α :=
  ⟨m.pairs.filter (fun p => p.1≠k),m.sorted.filter _⟩

def mapVals (f : Nat → α → β) (m : SortedMap α) : SortedMap β :=
  ⟨m.pairs.map (fun p => (p.1,f p.1 p.2)),by
    rw [List.pairwise_map]
    exact m.sorted⟩

def keys (m : SortedMap α) : List Nat := m.pairs.map Prod.fst

def size (m : SortedMap α) : Nat := m.pairs.length

theorem lookupIn_insertIn (k k' : Nat) (v : α) (l : List (Nat × α)) :
    lookupIn k' (insertIn k v l)=if k'=k then some v else lookupIn k' l := by
  induction l with
  | nil => simp [insertIn,lookupIn]
  | cons q l ih =>
    obtain ⟨a,b⟩ := q
    by_cases h3 : k'=k
    · subst h3
      simp only [insertIn,if_true]
      split_ifs with h1 h2
      · simp [lookupIn]
      · simp [lookupIn]
      · simp [lookupIn,h2,ih]
    · simp only [insertIn,if_neg h3] at ih ⊢
      split_ifs with h1 h2
      · simp [lookupIn,h3]
      · subst h2; simp [lookupIn,h3]
      · simp [lookupIn,ih]

theorem lookupIn_filter (k k' : Nat) (l : List (Nat × α)) :
    lookupIn k' (l.filter (fun p => p.1≠k))=if k'=k then none else lookupIn k' l := by
  induction l with
  | nil => simp [lookupIn]
  | cons q l ih =>
    obtain ⟨a,b⟩ := q
    by_cases ha : a=k
    · rw [List.filter_cons_of_neg (by simpa using ha),ih]
      by_cases hk : k'=k
      · simp [hk]
      · have : k'≠a := by omega
        simp [hk,lookupIn,this]
    · rw [List.filter_cons_of_pos (by simpa using ha)]
      simp only [lookupIn,ih]
      by_cases hk : k'=k
      · have : k'≠a := by omega
        simp [hk] at this ⊢
        simp [this]
      · simp [hk]

theorem lookupIn_map (f : Nat → α → β) (k : Nat) (l : List (Nat × α)) :
    lookupIn k (l.map (fun p => (p.1,f p.1 p.2)))=(lookupIn k l).map (f k) := by
  induction l with
  | nil => rfl
  | cons q l ih =>
    obtain ⟨a,b⟩ := q
    simp only [List.map_cons,lookupIn,ih]
    split_ifs with h
    · subst h; rfl
    · rfl

@[simp] theorem get?_empty (k : Nat) : (∅ : SortedMap α).get? k=none := rfl

@[grind =] theorem get?_insert (m : SortedMap α) (k k' : Nat) (v : α) :
    (m.insert k v).get? k'=if k'=k then some v else m.get? k' :=
  lookupIn_insertIn k k' v m.pairs

@[simp] theorem get?_insert_self (m : SortedMap α) (k : Nat) (v : α) :
    (m.insert k v).get? k=some v := by simp [get?_insert]

theorem get?_insert_ne (m : SortedMap α) {k k' : Nat} (v : α) (h : k'≠k) :
    (m.insert k v).get? k'=m.get? k' := by simp [get?_insert,h]

@[grind =] theorem get?_erase (m : SortedMap α) (k k' : Nat) :
    (m.erase k).get? k'=if k'=k then none else m.get? k' :=
  lookupIn_filter k k' m.pairs

@[simp,grind =] theorem get?_mapVals (f : Nat → α → β) (m : SortedMap α) (k : Nat) :
    (m.mapVals f).get? k=(m.get? k).map (f k) :=
  lookupIn_map f k m.pairs

theorem lookupIn_isSome (k : Nat) (l : List (Nat × α)) :
    (lookupIn k l).isSome ↔ k ∈ l.map Prod.fst := by
  induction l with
  | nil => simp [lookupIn]
  | cons q l ih =>
    obtain ⟨a,b⟩ := q
    simp only [lookupIn,List.map_cons,List.mem_cons]
    split_ifs with h
    · simp [h]
    · simp [h,ih]

@[grind =] theorem mem_keys (m : SortedMap α) (k : Nat) : k ∈ m.keys ↔ (m.get? k).isSome :=
  (lookupIn_isSome k m.pairs).symm

theorem mem_of_lookupIn {k : Nat} {v : α} {l : List (Nat × α)} (h : lookupIn k l=some v) :
    (k,v) ∈ l := by
  induction l with
  | nil => cases h
  | cons q l ih =>
    obtain ⟨k',v'⟩ := q
    simp only [lookupIn] at h
    split_ifs at h with he
    · cases h
      exact he ▸ List.mem_cons_self
    · exact List.mem_cons_of_mem _ (ih h)

theorem mem_pairs {m : SortedMap α} {k : Nat} {v : α} (h : m.get? k=some v) : (k,v) ∈ m.pairs :=
  mem_of_lookupIn h

theorem keys_pairwise (m : SortedMap α) : m.keys.Pairwise (· < ·) := by
  rw [keys,List.pairwise_map]
  exact m.sorted

theorem keys_nodup (m : SortedMap α) : m.keys.Nodup :=
  m.keys_pairwise.imp (fun h => Nat.ne_of_lt h)

theorem lookupIn_lt {k : Nat} {l : List (Nat × α)} (h : ∀ p ∈ l, k<p.1) :
    lookupIn k l=none := by
  induction l with
  | nil => rfl
  | cons q l ih =>
    have hq := h q (by simp)
    have : k≠q.1 := by omega
    simp [lookupIn,this,ih (fun p hp => h p (by simp [hp]))]

theorem lookupIn_of_mem {k : Nat} {v : α} {l : List (Nat × α)}
    (h : l.Pairwise (fun a b => a.1<b.1)) (hm : (k,v) ∈ l) : lookupIn k l=some v := by
  induction l with
  | nil => cases hm
  | cons q l ih =>
    obtain ⟨hq,hl⟩ := List.pairwise_cons.mp h
    rcases List.mem_cons.mp hm with rfl | hm
    · simp [lookupIn]
    · have : k≠q.1 := Nat.ne_of_gt (hq _ hm)
      simp [lookupIn,this,ih hl hm]

theorem get?_of_mem {m : SortedMap α} {k : Nat} {v : α} (h : (k,v) ∈ m.pairs) :
    m.get? k=some v := lookupIn_of_mem m.sorted h

/-- Writing pairs with ascending keys one after the other gives the map of the pairs. -/
theorem get?_foldl_insert (f : α → β) {l : List (Nat × α)}
    (h : l.Pairwise (fun a b => a.1<b.1)) (m : SortedMap β) (k : Nat) :
    (l.foldl (fun m p => m.insert p.1 (f p.2)) m).get? k=
      ((lookupIn k l).map f).or (m.get? k) := by
  induction l generalizing m with
  | nil => simp [lookupIn]
  | cons p l ih =>
    obtain ⟨hp,hl⟩ := List.pairwise_cons.mp h
    rw [List.foldl_cons,ih hl,get?_insert]
    by_cases hk : k=p.1
    · subst hk
      rw [lookupIn_lt (fun q hq => hp q hq)]
      simp [lookupIn]
    · simp [lookupIn,hk]

theorem pairs_ext {l l' : List (Nat × α)} (h : l.Pairwise (fun a b => a.1<b.1))
    (h' : l'.Pairwise (fun a b => a.1<b.1)) (he : ∀ k, lookupIn k l=lookupIn k l') :
    l=l' := by
  induction l generalizing l' with
  | nil =>
    cases l' with
    | nil => rfl
    | cons q l' => have := he q.1; simp [lookupIn] at this
  | cons p l ih =>
    obtain ⟨hp,hl⟩ := List.pairwise_cons.mp h
    cases l' with
    | nil => have := he p.1; simp [lookupIn] at this
    | cons q l' =>
      obtain ⟨hq,hl'⟩ := List.pairwise_cons.mp h'
      -- the smaller head would be missing from the other list
      have hk : p.1=q.1 := by
        have h1 := he p.1
        have h2 := he q.1
        simp only [lookupIn,if_true] at h1 h2
        rcases Nat.lt_trichotomy p.1 q.1 with hlt | heq | hgt
        · rw [if_neg (by omega),lookupIn_lt (fun r hr => hlt.trans (hq r hr))] at h1
          simp at h1
        · exact heq
        · rw [if_neg (by omega),lookupIn_lt (fun r hr => hgt.trans (hp r hr))] at h2
          simp at h2
      have hv := he p.1
      simp only [lookupIn,hk,if_true,Option.some.injEq] at hv
      have hpq : p=q := Prod.ext hk hv
      subst hpq
      congr 1
      apply ih hl hl'
      intro k
      have hkk := he k
      simp only [lookupIn] at hkk
      split_ifs at hkk with hkp
      · subst hkp
        rw [lookupIn_lt hp,lookupIn_lt hq]
      · exact hkk

@[ext] theorem ext {m m' : SortedMap α} (h : ∀ k, m.get? k=m'.get? k) : m=m' := by
  obtain ⟨l,hl⟩ := m
  obtain ⟨l',hl'⟩ := m'
  have : l=l' := pairs_ext hl hl' h
  subst this
  rfl

end SortedMap

/-- A set of ids, as a Go map with empty values. -/
abbrev IdSet := SortedMap Unit

namespace IdSet

def contains (s : IdSet) (k : Nat) : Bool := (s.get? k).isSome
def add (s : IdSet) (k : Nat) : IdSet := s.insert k ()
def ofList (l : List Nat) : IdSet := l.foldl add ∅

@[simp,grind =] theorem contains_add (s : IdSet) (k k' : Nat) :
    (s.add k).contains k'=(decide (k'=k) || s.contains k') := by
  simp only [contains,add,SortedMap.get?_insert]
  split_ifs with h <;> simp [h]

@[simp,grind =] theorem contains_erase (s : IdSet) (k k' : Nat) :
    contains (s.erase k) k'=(!decide (k'=k) && s.contains k') := by
  simp only [contains,SortedMap.get?_erase]
  split_ifs with h <;> simp [h]

@[simp] theorem contains_empty (k : Nat) : contains (∅ : IdSet) k=false := rfl

theorem contains_foldl_add (l : List Nat) (s : IdSet) (id : Nat) :
    (l.foldl add s).contains id=(decide (id ∈ l) || s.contains id) := by
  induction l generalizing s with
  | nil => simp
  | cons a l ih =>
    rw [List.foldl_cons,ih,IdSet.contains_add]
    by_cases ha : id=a <;> by_cases hl : id ∈ l <;> simp [ha,hl]

@[simp] theorem contains_ofList (l : List Nat) (id : Nat) :
    (ofList l).contains id=decide (id ∈ l) := by
  rw [ofList,contains_foldl_add,contains_empty,Bool.or_false]

@[grind =] theorem mem_keys_contains (s : IdSet) (k : Nat) :
    k ∈ s.keys ↔ s.contains k=true := by
  simp [SortedMap.mem_keys,contains]

theorem contains_ext {s t : IdSet} (h : ∀ k, s.contains k=t.contains k) : s=t := by
  apply SortedMap.ext
  intro k
  have hk := h k
  simp only [contains] at hk
  cases hs : s.get? k <;> cases ht : t.get? k <;> simp_all

end IdSet

end RaftTesting
