import RaftTesting.Log.WellFormed

namespace RaftTesting

section

variable [Raftpb] {maxSize : Nat} {es : List Entry}

/-- More than one entry is given out only within the limit, as uint64 counts it. -/
def Within (maxSize : Nat) (es : List Entry) : Prop :=
  es.length≤1 ∨ encodedSize es%2^64 ≤ maxSize

theorem limitLoop_within (size : Nat) (hne : limitLoop maxSize size es≠[]) :
    (size+encodedSize (limitLoop maxSize size es))%2^64 ≤ maxSize := by
  induction es generalizing size with
  | nil => exact absurd rfl hne
  | cons e es ih =>
    simp only [limitLoop] at hne ⊢
    split_ifs at hne ⊢ with hs
    · exact absurd rfl hne
    · change (size+(Raftpb.size e+encodedSize _))%2^64 ≤ maxSize
      rw [← Nat.add_assoc]
      by_cases hnil : limitLoop maxSize (size+Raftpb.size e) es=[]
      · rw [hnil]
        change (size+Raftpb.size e)%2^64 ≤ maxSize
        omega
      · exact ih _ hnil

theorem limitSize_within : Within maxSize (limitSize es maxSize) := by
  cases es with
  | nil => exact .inl (Nat.zero_le _)
  | cons e es =>
    by_cases hnil : limitLoop maxSize (Raftpb.size e) es=[]
    · refine .inl ?_
      change (e::limitLoop maxSize (Raftpb.size e) es).length≤1
      rw [hnil]
      exact le_rfl
    · exact .inr (limitLoop_within _ hnil)

end

namespace RaftLog

/-- P holds of every entry that is in storage or on the way there. -/
structure Holds (P : Entry → Prop) (l : RaftLog) : Prop where
  storage : ∀ e ∈ l.storage.ents, P e
  unstable : ∀ e ∈ l.unstable.entries, P e

end RaftLog

variable {P : Entry → Prop} {l l' : RaftLog} {ents : List Entry}

theorem MemoryStorage.append_holds {ms ms' : MemoryStorage} (hms : ∀ e ∈ ms.ents, P e)
    (hents : ∀ e ∈ ents, P e) (h : ms.append ents=.ok ms') : ∀ e ∈ ms'.ents, P e := by
  unfold append at h
  split at h
  · cases h
    exact hms
  · dsimp only at h
    split at h
    · cases h
      exact hms
    · split at h
      · cases h
      · rename_i e' es hdrop
        unfold appendAt at h
        dsimp only at h
        split at h
        · cases h
          intro x hx
          rcases List.mem_append.mp hx with hx | hx
          · exact hms x (List.mem_of_mem_take hx)
          · exact hents x (List.mem_of_mem_drop (hdrop ▸ hx))
        · cases h

theorem Unstable.truncateAndAppend_holds {u u' : Unstable} {e : Entry} {es : List Entry}
    (hu : ∀ e ∈ u.entries, P e) (hes : ∀ x ∈ e::es, P x) (h : u.truncateAndAppend e es=.ok u') :
    ∀ e ∈ u'.entries, P e := by
  unfold truncateAndAppend at h
  dsimp only at h
  split at h
  · cases h
    exact List.forall_mem_append.mpr ⟨hu,hes⟩
  · split at h
    · cases h
      exact hes
    · obtain ⟨kept,hkept,h⟩ := bind_eq_ok.mp h
      cases h
      obtain ⟨-,-,hkept⟩ := bind_eq_ok.mp hkept
      cases hkept
      exact List.forall_mem_append.mpr
        ⟨fun x hx => hu x (List.mem_of_mem_drop (List.mem_of_mem_take hx)),hes⟩

theorem Unstable.stableTo_entries (u : Unstable) (i t : Nat) :
    (u.stableTo i t).entries ⊆ u.entries := by
  unfold stableTo
  split
  · exact List.Subset.refl _
  · split_ifs
    · exact List.drop_subset _ _
    · exact List.Subset.refl _

theorem Unstable.stableSnapTo_entries (u : Unstable) (i : Nat) :
    (u.stableSnapTo i).entries=u.entries := by
  unfold stableSnapTo
  split
  · split_ifs <;> rfl
  · rfl

namespace RaftLog

theorem Holds.append (hl : l.Holds P) (hents : ∀ e ∈ ents, P e) (h : l.append ents=.ok l') :
    l'.Holds P := by
  unfold RaftLog.append at h
  split at h
  · cases h
    exact hl
  · split at h
    · cases h
    · obtain ⟨u,hu,h⟩ := bind_eq_ok.mp h
      cases h
      exact ⟨hl.storage,Unstable.truncateAndAppend_holds hl.unstable hents hu⟩

theorem Holds.maybeAppend (hl : l.Holds P) (hents : ∀ e ∈ ents, P e) {i t k : Nat}
    {last : Option Nat} (h : l.maybeAppend i t k ents=.ok (l',last)) : l'.Holds P := by
  unfold RaftLog.maybeAppend at h
  split at h
  · obtain ⟨l1,h1,h⟩ := bind_eq_ok.mp h
    cases h
    have hl1 : l1.Holds P := by
      unfold appendFrom at h1
      split at h1
      · cases h1
        exact hl
      · split at h1
        · cases h1
        · split at h1
          · cases h1
          · exact hl.append (fun e he => hents e (List.mem_of_mem_drop he)) h1
    rw [commitTo_fst]
    exact ⟨hl1.storage,hl1.unstable⟩
  · cases h
    exact hl

theorem Holds.restore (hl : l.Holds P) (s : Snapshot) : (l.restore s).Holds P :=
  ⟨hl.storage,fun _ he => absurd he List.not_mem_nil⟩

theorem Holds.stableTo (hl : l.Holds P) (i t : Nat) : (l.stableTo i t).Holds P :=
  ⟨hl.storage,fun e he => hl.unstable e (l.unstable.stableTo_entries i t he)⟩

theorem Holds.stableSnapTo (hl : l.Holds P) (i : Nat) : (l.stableSnapTo i).Holds P := by
  refine ⟨hl.storage,fun e he => hl.unstable e ?_⟩
  rw [← l.unstable.stableSnapTo_entries i]
  exact he

section

variable [Raftpb] {lo hi maxSize : Nat}

theorem sliceStable_holds (hl : l.Holds P) {reached : Bool}
    (h : l.sliceStable lo hi maxSize=.ok (.ok (ents,reached))) :
    (∀ e ∈ ents, P e) ∧ Within maxSize ents := by
  unfold sliceStable at h
  split at h
  · dsimp only at h
    split at h
    · cases h
    · cases h
    · cases h
    · rename_i hread
      cases h
      unfold MemoryStorage.entries at hread
      dsimp only at hread
      split_ifs at hread <;> cases hread
      refine ⟨fun e he => hl.storage e ?_,limitSize_within⟩
      have hmem := (limitSize_isPrefix _ _).subset he
      exact List.mem_of_mem_drop (List.mem_of_mem_take hmem)
  · cases h
    exact ⟨fun _ he => absurd he List.not_mem_nil,.inl (Nat.zero_le _)⟩

/-- What is read from a log is in it, and within the limit. -/
theorem slice_holds (hl : l.Holds P) (h : l.slice lo hi maxSize=.ok (.ok ents)) :
    (∀ e ∈ ents, P e) ∧ Within maxSize ents := by
  obtain ⟨bounds,-,h⟩ := bind_eq_ok.mp h
  split at h
  · cases h
  · split at h
    · cases h
      exact ⟨fun _ he => absurd he List.not_mem_nil,.inl (Nat.zero_le _)⟩
    · obtain ⟨res,hst,h⟩ := bind_eq_ok.mp h
      split at h
      · cases h
      · obtain ⟨hstored,hwithin⟩ := sliceStable_holds hl hst
        split at h
        · cases h
          exact ⟨hstored,hwithin⟩
        · split at h
          · obtain ⟨us,hus,h⟩ := bind_eq_ok.mp h
            cases h
            obtain ⟨-,-,hus⟩ := bind_eq_ok.mp hus
            cases hus
            refine ⟨fun e he => ?_,limitSize_within⟩
            rcases List.mem_append.mp ((limitSize_isPrefix _ _).subset he) with he | he
            · exact hstored e he
            · exact hl.unstable e (List.mem_of_mem_drop (List.mem_of_mem_take he))
          · cases h
            exact ⟨fun e he => hstored e ((limitSize_isPrefix _ _).subset he),limitSize_within⟩

theorem entries_holds (hl : l.Holds P) {i : Nat} (h : l.entries i maxSize=.ok (.ok ents)) :
    (∀ e ∈ ents, P e) ∧ Within maxSize ents := by
  unfold entries at h
  split at h
  · cases h
    exact ⟨fun _ he => absurd he List.not_mem_nil,.inl (Nat.zero_le _)⟩
  · exact slice_holds hl h

theorem nextEnts_holds (hl : l.Holds P) (h : l.nextEnts=.ok ents) :
    (∀ e ∈ ents, P e) ∧ Within l.maxNextEntsSize ents := by
  unfold nextEnts at h
  dsimp only at h
  split at h
  · obtain ⟨res,hslice,h⟩ := bind_eq_ok.mp h
    split at h
    · cases h
      exact slice_holds hl hslice
    · cases h
  · cases h
    exact ⟨fun _ he => absurd he List.not_mem_nil,.inl (Nat.zero_le _)⟩

end

/-- The whole log is made of what is held. -/
theorem Holds.all (hl : l.Holds P) : ∀ e ∈ l.all, P e := by
  intro e he
  rcases List.mem_append.mp he with he | he
  · exact hl.storage e (List.mem_of_mem_tail (List.mem_of_mem_take he))
  · exact hl.unstable e he

end RaftLog

end RaftTesting
