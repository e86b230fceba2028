import RaftTesting.Log.Pieces
import RaftTesting.Protocol.Wire

namespace RaftTesting

namespace MemoryStorage

variable {ms ms' : MemoryStorage} {i f : Nat} {e : Entry} {ents : List Entry}

/-- An entry at position 0 lies in front of every log. -/
theorem append_zero (h : Consecutive 0 (e::ents)) : ms.append (e::ents)=ms.append ents := by
  have he : e.index=0 := h 0 e rfl
  cases ents with
  | nil =>
    unfold append
    dsimp only
    rw [if_pos]
    simp only [he,firstIndex,List.length_singleton]
    omega
  | cons e' es =>
    have he' : e'.index=1 := h 1 e' rfl
    unfold append
    dsimp only
    have hlast : e.index+(e::e'::es).length-1=e'.index+(e'::es).length-1 := by
      simp only [he,he',List.length_cons]
      omega
    have hdrop : (e::e'::es).drop (ms.firstIndex-e.index)=
        (e'::es).drop (ms.firstIndex-e'.index) := by
      rw [he,he',Nat.sub_zero]
      unfold firstIndex
      rw [List.drop_succ_cons,Nat.add_sub_cancel]
    rw [hlast,hdrop]

/-- What Append does to a storage: nothing when the list ends before the first index,
otherwise the list replaces what is stored from its first index on. -/
theorem append_consecutive (hms : Numbered ms.dummy.index ms.stored) (hc : Consecutive f ents)
    (hne : ents≠[]) (hf : f ≤ ms.lastIndex+1) :
    ∃ ms', ms.append ents=.ok ms' ∧ ms'.dummy=ms.dummy ∧ ms'.snapshot=ms.snapshot ∧
      Numbered ms.dummy.index ms'.stored ∧ (f+ents.length ≤ ms.firstIndex → ms'=ms) ∧
      (ms.firstIndex<f+ents.length → ms'.lastIndex+1=f+ents.length ∧
        ∀ i, ms.firstIndex ≤ i → ms'.entryAt i=if i<f then ms.entryAt i else ents[i-f]?) := by
  -- the part of the list behind position 0 is numbered
  have hplaced : ∀ q es, es≠[] → Numbered q es → q ≤ ms.lastIndex →
      ∃ ms', ms.append es=.ok ms' ∧ ms'.dummy=ms.dummy ∧ ms'.snapshot=ms.snapshot ∧
        Numbered ms.dummy.index ms'.stored ∧ (q+es.length ≤ ms.dummy.index → ms'=ms) ∧
        (ms.dummy.index<q+es.length → ms'.lastIndex=q+es.length ∧
          ∀ i, ms.dummy.index < i → ms'.entryAt i=if i≤q then ms.entryAt i else es[i-q-1]?) := by
    intro q es hes hn hq
    obtain ⟨ms',happ⟩ := append_ok hn hq
    rcases append_cases hn hes happ with ⟨rfl,hle⟩ | ⟨hlt,-,hd,hsnap,-,-⟩
    · exact ⟨ms',happ,rfl,rfl,hms,fun _ => rfl,fun hlt => absurd hlt (by omega)⟩
    · obtain ⟨-,-,-,-,hnum,hlast,hlow,hhigh⟩ := append_placed hms hn hlt hes happ
      refine ⟨ms',happ,hd,hsnap,hnum,fun hle => absurd hlt (by omega),fun _ => ⟨hlast,?_⟩⟩
      intro i hi
      split_ifs with hiq
      · exact hlow i hiq
      · exact hhigh i (by omega) hi
  unfold firstIndex
  cases f with
  | succ p =>
    obtain ⟨ms',happ,hd,hsnap,hnum,hsame,hover⟩ := hplaced p ents hne hc.numbered (by omega)
    refine ⟨ms',happ,hd,hsnap,hnum,fun hle => hsame (by omega),fun hlt => ?_⟩
    obtain ⟨hlast,hat⟩ := hover (by omega)
    refine ⟨by omega,fun i hi => ?_⟩
    rw [hat i (by omega)]
    simp only [Nat.lt_succ_iff,Nat.sub_sub]
  | zero =>
    cases ents with
    | nil => exact absurd rfl hne
    | cons e es =>
      cases hes : es with
      | nil =>
        subst hes
        refine ⟨ms,by rw [append_zero hc]; rfl,rfl,rfl,hms,fun _ => rfl,fun hlt => ?_⟩
        simp only [List.length_singleton] at hlt
        omega
      | cons e' es' =>
        rw [← hes]
        obtain ⟨ms',happ,hd,hsnap,hnum,hsame,hover⟩ := hplaced 0 es (hes ▸ List.cons_ne_nil _ _)
          (hc.drop 1).numbered (Nat.zero_le _)
        refine ⟨ms',by rw [append_zero hc]; exact happ,hd,hsnap,hnum,?_,?_⟩
        · intro hle
          rw [List.length_cons] at hle
          exact hsame (by omega)
        · intro hlt
          rw [List.length_cons] at hlt ⊢
          obtain ⟨hlast,hat⟩ := hover (by omega)
          refine ⟨by omega,fun i hi => ?_⟩
          obtain ⟨j,rfl⟩ : ∃ j, i=j+1 := ⟨i-1,by omega⟩
          rw [hat _ (by omega),if_neg (by omega),if_neg (by omega)]
          rfl

/-- Past the last index Term answers ErrUnavailable as long as the offset is not negative as
an int. From there on the slice is read out of its range. -/
theorem term_past (hi : ms.lastIndex < i) :
    (i < ms.dummy.index+2^63 → ms.term i=.ok (.error .errUnavailable)) ∧
    (ms.dummy.index+2^63 ≤ i → i<2^64 → ms.term i=.error .indexOutOfRange) := by
  have hlen : ms.ents.length ≤ i-ms.dummy.index := by
    rw [ms.ents_eq,List.length_cons]
    rw [lastIndex_eq] at hi
    omega
  have hd := ms.dummy_le_lastIndex
  unfold term toInt
  dsimp only
  rw [if_neg (by omega)]
  refine ⟨fun hlt => ?_,fun hle hlt => ?_⟩
  · rw [if_pos (show i-ms.dummy.index<2^63 by omega),if_pos (by omega)]
  · rw [if_neg (show ¬i-ms.dummy.index<2^63 by omega),if_neg (by omega),
      List.getElem?_eq_none hlen]

theorem compact_ok (hi : ms.firstIndex ≤ i) (hle : i ≤ ms.lastIndex) :
    ∃ ms', ms.compact i=.ok (.ok ms') := by
  unfold firstIndex at hi
  obtain ⟨e,he⟩ := Option.isSome_iff_exists.mp (entryAt_isSome.mpr ⟨hi,hle⟩)
  unfold compact
  dsimp only
  rw [if_neg (by omega),if_neg (by omega),getElem_ents hi,he]
  exact ⟨_,rfl⟩

section

variable [Raftpb]

/-- Term and Entries answer with e at index i. -/
def Shows (ms : MemoryStorage) (i : Nat) (e : Entry) : Prop :=
  ms.term i=.ok (.ok e.term) ∧ ∀ maxSize, ms.entries i (i+1) maxSize=.ok (.ok [e])

/-- Term and Entries have nothing at index i. Term says so, or panics when i lies 2^63 or more
behind the dummy entry. -/
def Lacks (ms : MemoryStorage) (i : Nat) : Prop :=
  (ms.term i=if i < ms.dummy.index+2^63 then .ok (.error .errUnavailable)
    else .error .indexOutOfRange) ∧
    ∀ lo maxSize, ms.firstIndex≤lo → ms.entries lo (i+1) maxSize=.error .entriesOutOfBound

/-- What Entries reads before the limit cuts it off. -/
theorem entries_range {lo hi : Nat} (maxSize : Nat) (hlo : ms.dummy.index<lo) (hlt : lo<hi)
    (hhi : hi ≤ ms.lastIndex+1) : ∃ es, ms.entries lo hi maxSize=.ok (.ok (limitSize es maxSize)) ∧
      es.length=hi-lo ∧ ∀ j<hi-lo, es[j]?=ms.entryAt (lo+j) := by
  have hlast := ms.lastIndex_eq
  have hents := ms.ents_eq
  have hlen : ms.ents.length=ms.stored.length+1 := by rw [hents,List.length_cons]
  refine ⟨(ms.ents.drop (lo-ms.dummy.index)).take (hi-lo),?_,?_,?_⟩
  · unfold entries
    dsimp only
    rw [if_neg (by omega),if_neg (by omega),if_neg (by omega),if_neg (by omega)]
  · rw [List.length_take,List.length_drop]
    omega
  · intro j hj
    rw [List.getElem?_take_of_lt hj,List.getElem?_drop,← getElem_ents (by omega)]
    congr 1
    omega

theorem shows_of_entryAt (hi : ms.dummy.index < i) (he : ms.entryAt i=some e) : ms.Shows i e := by
  refine ⟨term_eq hi he,fun maxSize => ?_⟩
  have hrange := entryAt_isSome.mp (he ▸ rfl : (ms.entryAt i).isSome)
  obtain ⟨es,hread,hlen,hat⟩ := ms.entries_range maxSize hi (Nat.lt_succ_self i) (by omega)
  have hes : es=[e] := by
    have hzero := hat 0 (by omega)
    rw [Nat.add_zero,he] at hzero
    cases es with
    | nil => cases hzero
    | cons e' es' =>
      cases hzero
      have hnil : es'.length=0 := by
        simp only [List.length_cons] at hlen
        omega
      rw [List.eq_nil_of_length_eq_zero hnil]
  rw [hread,hes]
  rfl

theorem lacks_of_past (hi : ms.lastIndex < i) (hlt : i<2^64) : ms.Lacks i := by
  refine ⟨?_,fun lo maxSize hlo => ?_⟩
  · obtain ⟨hnear,hfar⟩ := term_past hi
    split_ifs with h
    · exact hnear h
    · exact hfar (Nat.not_lt.mp h) hlt
  unfold firstIndex at hlo
  unfold entries
  dsimp only
  rw [if_neg (by omega),if_pos (by omega)]

theorem exists_shows (hi : ms.firstIndex ≤ i) (hle : i ≤ ms.lastIndex) :
    ∃ e, ms.entryAt i=some e ∧ ms.Shows i e := by
  unfold firstIndex at hi
  obtain ⟨e,he⟩ := Option.isSome_iff_exists.mp (entryAt_isSome.mpr ⟨hi,hle⟩)
  exact ⟨e,he,shows_of_entryAt hi he⟩

/-- Append and Compact act on one partial log: a list overwrites the log from its first index
on, compaction cuts off the front, and what Term and Entries answer elsewhere stays. -/
theorem append_compact_exact (ms : MemoryStorage) (hms : Numbered ms.dummy.index ms.stored) :
    (∀ f ents, ents≠[] → Consecutive f ents → f ≤ ms.lastIndex+1 →
      ∃ ms', ms.append ents=.ok ms' ∧ Numbered ms'.dummy.index ms'.stored ∧
        ms'.firstIndex=ms.firstIndex ∧
        (∀ i, ms.firstIndex ≤ i → i<f → ∃ e, ms.Shows i e ∧ ms'.Shows i e) ∧
        (∀ j e, ents[j]?=some e → ms.firstIndex≤f+j → ms'.Shows (f+j) e) ∧
        (ms.firstIndex<f+ents.length → ∀ i, f+ents.length ≤ i → i<2^64 → ms'.Lacks i) ∧
        (f+ents.length ≤ ms.firstIndex → ms'=ms)) ∧
    (∀ k, ms.firstIndex≤k → k ≤ ms.lastIndex →
      ∃ ms', ms.compact k=.ok (.ok ms') ∧ Numbered ms'.dummy.index ms'.stored ∧
        ms'.firstIndex=k+1 ∧ ms'.lastIndex=ms.lastIndex ∧ ms'.term k=ms.term k ∧
        (∀ i, k < i → i ≤ ms.lastIndex → ∃ e, ms.Shows i e ∧ ms'.Shows i e) ∧
        (∀ i<k, ms'.term i=.ok (.error .errCompacted)) ∧
        ∀ i hi maxSize, i≤k → ms'.entries i hi maxSize=.ok (.error .errCompacted)) ∧
    ∀ lo hi maxSize, ms.firstIndex≤lo → lo<hi → hi ≤ ms.lastIndex+1 →
      ∃ es, ms.entries lo hi maxSize=.ok (.ok (limitSize es maxSize)) ∧ es.length=hi-lo ∧
        ∀ j e, es[j]?=some e → ms.Shows (lo+j) e := by
  refine ⟨?_,?_,?_⟩
  · intro f ents hne hc hf
    obtain ⟨ms',happ,hd,-,hnum,hsame,hover⟩ := append_consecutive hms hc hne hf
    have hfirst : ms'.firstIndex=ms.firstIndex := by
      unfold firstIndex
      rw [hd]
    refine ⟨ms',happ,hd.symm ▸ hnum,hfirst,?_,?_,?_,hsame⟩
    · intro i hi hlt
      obtain ⟨e,he,hshow⟩ := ms.exists_shows hi (by omega)
      refine ⟨e,hshow,shows_of_entryAt ?_ ?_⟩
      · rw [hd]
        exact hi
      · obtain ⟨-,hat⟩ := hover (by omega)
        rw [hat i hi,if_pos hlt]
        exact he
    · intro j e hj hfj
      have hjlt : j<ents.length := (List.getElem?_eq_some_iff.mp hj).1
      obtain ⟨-,hat⟩ := hover (by omega)
      refine shows_of_entryAt ?_ ?_
      · rw [hd]
        exact hfj
      · rw [hat _ hfj,if_neg (by omega),Nat.add_sub_cancel_left]
        exact hj
    · intro hlt i hi hword
      obtain ⟨hlast,-⟩ := hover hlt
      exact lacks_of_past (by omega) hword
  · intro k hk hle
    obtain ⟨ms',hcomp⟩ := compact_ok hk hle
    obtain ⟨-,-,hindex,⟨e,he,hterm⟩,hlast,-,-,hnum,hat⟩ := compact_spec hms hcomp
    have hdummy := ms'.term_dummy
    rw [hindex,hterm,← term_eq hk he] at hdummy
    refine ⟨ms',hcomp,hindex.symm ▸ hnum,by unfold firstIndex; rw [hindex],hlast,hdummy,?_,?_,?_⟩
    · intro i hki hil
      unfold firstIndex at hk
      obtain ⟨e',he',hshow⟩ := ms.exists_shows (show ms.dummy.index+1 ≤ i by omega) hil
      refine ⟨e',hshow,shows_of_entryAt (by omega) ?_⟩
      rw [hat i hki]
      exact he'
    · intro i hi
      unfold term
      dsimp only
      rw [if_pos (by omega)]
    · intro i hi maxSize hik
      unfold entries
      dsimp only
      rw [if_pos (by omega)]
  · intro lo hi maxSize hlo hlt hhi
    obtain ⟨es,hread,hlen,hat⟩ := ms.entries_range maxSize hlo hlt hhi
    refine ⟨es,hread,hlen,fun j e hj => ?_⟩
    have hjlt : j<es.length := (List.getElem?_eq_some_iff.mp hj).1
    unfold firstIndex at hlo
    refine shows_of_entryAt (by omega) ?_
    rw [← hat j (by omega)]
    exact hj

end

section

local instance memoryWire : Raftpb := Wire.small

/-- The log behind index 2 with the entries 3 to 5. -/
def cutOff : MemoryStorage :=
  ⟨{},{},[⟨1,2,.entryNormal,[]⟩,⟨1,3,.entryNormal,[]⟩,⟨1,4,.entryNormal,[]⟩,⟨2,5,.entryNormal,[]⟩],
    by simp⟩

/-- A list that starts in front of the log and ends inside it. -/
def straddling : List Entry :=
  [⟨3,2,.entryNormal,[]⟩,⟨3,3,.entryNormal,[7]⟩,⟨3,4,.entryNormal,[8]⟩]

theorem append_compact_exact_cutOff :
    ∃ ms', cutOff.append straddling=.ok ms' ∧ ms'.firstIndex=3 ∧
      ms'.Shows 4 ⟨3,4,.entryNormal,[8]⟩ ∧ ms'.Lacks 5 := by
  have hms : Numbered cutOff.dummy.index cutOff.stored := by decide
  have hc : Consecutive 2 straddling := by
    intro k e hk
    rcases k with _ | _ | _ | k <;> cases hk <;> rfl
  obtain ⟨ms',happ,-,hfirst,-,hover,hpast,-⟩ :=
    (append_compact_exact cutOff hms).1 2 straddling (by decide) hc (by decide)
  exact ⟨ms',happ,hfirst,hover 2 _ rfl (by decide),hpast (by decide) 5 (by decide) (by decide)⟩

end

/-- The calls on a storage that change its log or its snapshot. -/
inductive Op where
  | append (ents : List Entry)
  | compact (i : Nat)
  | createSnapshot (i : Nat) (cs : Option ConfState) (data : Bytes)
  | applySnapshot (s : Snapshot)

/-- The call with its panic and the error it returns; an error leaves the storage as it is. -/
def act (ms : MemoryStorage) : Op → Except Panic (Except StorageErr MemoryStorage)
  | .append ents => do
    let ms ← ms.append ents
    .ok (.ok ms)
  | .compact i => ms.compact i
  | .createSnapshot i cs data => ms.createSnapshot i cs data
  | .applySnapshot s => .ok (ms.applySnapshot s)

def run (ms : MemoryStorage) : List Op → Except Panic MemoryStorage
  | [] => .ok ms
  | op::ops => do
    match ← ms.act op with
    | .ok ms => ms.run ops
    | .error _ => ms.run ops

theorem run_append {x y : MemoryStorage} {front rest : List Op} (hy : x.run front=.ok y) :
    x.run (front++rest)=y.run rest := by
  induction front generalizing x with
  | nil =>
    cases hy
    rfl
  | cons op front ih =>
    simp only [run] at hy
    obtain ⟨res,hact,hy⟩ := bind_eq_ok.mp hy
    rw [List.cons_append]
    simp only [run,hact,bind,Except.bind]
    cases res with
    | ok x' => exact ih hy
    | error err => exact ih hy

/-- Lists are consecutive and leave no gap, the other calls name an index of the log. -/
def Fits (ms : MemoryStorage) : Op → Prop
  | .append ents => ents=[] ∨ ∃ f, Consecutive f ents ∧ f ≤ ms.lastIndex+1
  | .compact i => i ≤ ms.lastIndex
  | .createSnapshot i _ _ => i ≤ ms.lastIndex
  | .applySnapshot _ => True

/-- A snapshot that is newer than the stored one lies at the dummy or behind it. -/
def Reaches (ms : MemoryStorage) : Op → Prop
  | .createSnapshot i _ _ => ms.snapshot.index < i → ms.dummy.index ≤ i
  | .applySnapshot s => ms.snapshot.index<s.index → ms.dummy.index ≤ s.index
  | _ => True

/-- P holds of each call at the state in which it is made. -/
def Along (P : MemoryStorage → Op → Prop) (ms : MemoryStorage) : List Op → Prop
  | [] => True
  | op::ops => P ms op ∧ match ms.act op with
    | .error _ => True
    | .ok (.error _) => ms.Along P ops
    | .ok (.ok ms') => ms'.Along P ops

/-- The snapshot's term is the one that the log has at the snapshot's index. -/
def Matches (ms : MemoryStorage) : Prop := ms.term ms.snapshot.index=.ok (.ok ms.snapshot.term)

/-- What a call may do to a storage. -/
structure Passed (ms ms' : MemoryStorage) : Prop where
  numbered : Numbered ms'.dummy.index ms'.stored
  first : ms.firstIndex ≤ ms'.firstIndex
  snapshot : ms'.snapshot=ms.snapshot ∨ ms'.Matches

theorem createSnapshot_ok {cs : Option ConfState} {data : Bytes} (hd : ms.dummy.index ≤ i)
    (hle : i ≤ ms.lastIndex) (hnew : ms.snapshot.index < i) :
    ∃ t, ms.term i=.ok (.ok t) ∧ ms.createSnapshot i cs data=.ok (.ok { ms with snapshot :=
      { data := data, confState := cs.getD ms.snapshot.confState, index := i, term := t } }) := by
  have hat : (ms.ents[i-ms.dummy.index]?).isSome := by
    rw [Option.isSome_iff_ne_none,ne_eq,List.getElem?_eq_none_iff,ms.ents_eq,List.length_cons]
    rw [lastIndex_eq] at hle
    omega
  obtain ⟨e,he⟩ := Option.isSome_iff_exists.mp hat
  refine ⟨e.term,?_,?_⟩
  · exact term_of_getElem hd he
  · unfold createSnapshot
    rw [if_neg (by omega),if_neg (by omega),usub_of_le hd,he]

/-- In front of the dummy the offset wraps around and points behind the slice. -/
theorem createSnapshot_panics {cs : Option ConfState} {data : Bytes} (hd : i < ms.dummy.index)
    (hnew : ms.snapshot.index < i) (hlast : ms.lastIndex<2^64) :
    ms.createSnapshot i cs data=.error .indexOutOfRange := by
  have hle := ms.dummy_le_lastIndex
  have hnone : ms.ents[usub i ms.dummy.index]?=none := by
    unfold usub
    rw [if_neg (by omega),List.getElem?_eq_none_iff,ms.ents_eq,List.length_cons]
    rw [lastIndex_eq] at hlast
    omega
  unfold createSnapshot
  rw [if_neg (by omega),if_neg (by omega),hnone]

/-- One call of a fitting kind that reaches the log. -/
theorem act_passed (hms : Numbered ms.dummy.index ms.stored) {op : Op} (hop : ms.Fits op)
    (hr : ms.Reaches op) :
    (∃ ms', ms.act op=.ok (.ok ms') ∧ Passed ms ms') ∨
    ms.act op=.ok (.error .errCompacted) ∨ ms.act op=.ok (.error .errSnapOutOfDate) := by
  cases op with
  | append ents =>
    left
    rcases hop with rfl | ⟨f,hc,hf⟩
    · exact ⟨ms,rfl,hms,le_rfl,.inl rfl⟩
    by_cases hne : ents=[]
    · subst hne
      exact ⟨ms,rfl,hms,le_rfl,.inl rfl⟩
    obtain ⟨ms',happ,hd,hsnap,hnum,-,-⟩ := append_consecutive hms hc hne hf
    refine ⟨ms',by simp only [act,happ,bind,Except.bind],hd.symm ▸ hnum,?_,.inl hsnap⟩
    unfold firstIndex
    rw [hd]
  | compact k =>
    by_cases hk : k ≤ ms.dummy.index
    · right
      left
      simp only [act,compact,if_pos hk]
    left
    obtain ⟨ms',hcomp⟩ := compact_ok (show ms.dummy.index+1≤k by omega) hop
    obtain ⟨-,-,hindex,-,-,hsnap,-,hnum,-⟩ := compact_spec hms hcomp
    refine ⟨ms',hcomp,hindex.symm ▸ hnum,?_,.inl hsnap⟩
    unfold firstIndex
    omega
  | createSnapshot k cs data =>
    by_cases hk : k ≤ ms.snapshot.index
    · right
      right
      simp only [act,createSnapshot,if_pos hk]
    left
    obtain ⟨t,ht,hcreate⟩ := ms.createSnapshot_ok (hr (by omega)) hop (by omega)
    exact ⟨_,hcreate,hms,le_rfl,.inr ht⟩
  | applySnapshot s =>
    by_cases hs : s.index ≤ ms.snapshot.index
    · right
      right
      simp only [act,applySnapshot,if_pos hs]
    left
    have hlt : ms.snapshot.index<s.index := Nat.not_le.mp hs
    obtain ⟨ms',happ,hindex,hterm,hstored,hsnap,-⟩ := applySnapshot_spec hlt
    refine ⟨ms',by simp only [act,happ],?_,?_,.inr ?_⟩
    · rw [hstored]
      exact Numbered.nil _
    · have hle := hr (Nat.not_le.mp hs)
      unfold firstIndex
      omega
    · have hdummy := ms'.term_dummy
      unfold Matches
      rw [hsnap,← hindex,← hterm]
      exact hdummy

/-- What a run of such calls leaves: the first index only moves up, and a snapshot that the run
has stored matches the log of the moment when it was stored. -/
structure After (x : MemoryStorage) (ops : List Op) (ms : MemoryStorage) : Prop where
  numbered : Numbered ms.dummy.index ms.stored
  first : x.firstIndex ≤ ms.firstIndex
  snapshot : ms.snapshot=x.snapshot ∨
    ∃ front z, front<+:ops ∧ x.run front=.ok z ∧ z.snapshot=ms.snapshot ∧ z.Matches

theorem After.cons {x x' : MemoryStorage} {op : Op} {ops : List Op}
    (hstep : ∀ rest, x.run (op::rest)=x'.run rest) (hp : Passed x x') (h : After x' ops ms) :
    After x (op::ops) ms := by
  refine ⟨h.numbered,hp.first.trans h.first,?_⟩
  rcases h.snapshot with hsnap | ⟨front,z,hfront,hz,hzs,hzm⟩
  · rcases hp.snapshot with hsame | hmatch
    · exact .inl (hsnap.trans hsame)
    · exact .inr ⟨[op],x',⟨ops,rfl⟩,hstep [],hsnap.symm,hmatch⟩
  · exact .inr ⟨op::front,z,(List.prefix_cons_inj op).mpr hfront,(hstep front).trans hz,hzs,hzm⟩

theorem run_after {x : MemoryStorage} {ops : List Op} (hx : Numbered x.dummy.index x.stored)
    (hops : x.Along (fun ms op => ms.Fits op ∧ ms.Reaches op) ops) :
    ∃ ms, x.run ops=.ok ms ∧ After x ops ms := by
  induction ops generalizing x with
  | nil => exact ⟨x,rfl,hx,le_rfl,.inl rfl⟩
  | cons op ops ih =>
    obtain ⟨⟨hfit,hreach⟩,halong⟩ := hops
    have hstay : Passed x x := ⟨hx,le_rfl,.inl rfl⟩
    rcases act_passed hx hfit hreach with ⟨x',hact,hp⟩ | hact | hact
    · rw [hact] at halong
      obtain ⟨ms,hms,hafter⟩ := ih hp.numbered halong
      have hstep : ∀ rest, x.run (op::rest)=x'.run rest := by
        intro rest
        simp only [run,hact,bind,Except.bind]
      exact ⟨ms,(hstep ops).trans hms,hafter.cons hstep hp⟩
    all_goals
      rw [hact] at halong
      obtain ⟨ms,hms,hafter⟩ := ih hx halong
      have hstep : ∀ rest, x.run (op::rest)=x.run rest := by
        intro rest
        simp only [run,hact,bind,Except.bind]
      exact ⟨ms,(hstep ops).trans hms,hafter.cons hstep hstay⟩

theorem along_append {P : MemoryStorage → Op → Prop} {x y : MemoryStorage} {front rest : List Op}
    (h : x.Along P (front++rest)) (hy : x.run front=.ok y) : y.Along P rest := by
  induction front generalizing x with
  | nil =>
    cases hy
    exact h
  | cons op front ih =>
    obtain ⟨-,h⟩ := h
    simp only [run] at hy
    obtain ⟨res,hact,hy⟩ := bind_eq_ok.mp hy
    rw [hact] at h
    cases res with
    | ok x' => exact ih h hy
    | error err => exact ih h hy

theorem along_front {P : MemoryStorage → Op → Prop} {x : MemoryStorage} {front rest : List Op}
    (h : x.Along P (front++rest)) : x.Along P front := by
  induction front generalizing x with
  | nil => trivial
  | cons op front ih =>
    obtain ⟨hop,h⟩ := h
    refine ⟨hop,?_⟩
    split at h
    · trivial
    · exact ih h
    · exact ih h

/-- A new storage stays sane as long as no newer snapshot is made or applied in front of the
log, and such a snapshot is what breaks it. -/
theorem run_sane (ops : List Op)
    (hops : newMemoryStorage.Along (fun ms op => ms.Fits op ∧ ms.Reaches op) ops) :
    ∃ ms, newMemoryStorage.run ops=.ok ms ∧
      (∀ front rest, ops=front++rest →
        ∃ y, newMemoryStorage.run front=.ok y ∧ y.firstIndex ≤ ms.firstIndex) ∧
      (∃ front z, front<+:ops ∧ newMemoryStorage.run front=.ok z ∧ z.snapshot=ms.snapshot ∧
        z.Matches) ∧
      ∀ op, ms.Fits op → ms.lastIndex<2^64 →
        (((∃ ms', ms.act op=.ok (.ok ms') ∧ ms.firstIndex ≤ ms'.firstIndex) ∨
          ms.act op=.ok (.error .errCompacted) ∨ ms.act op=.ok (.error .errSnapOutOfDate)) ↔
        ms.Reaches op) := by
  have hnew : Numbered newMemoryStorage.dummy.index newMemoryStorage.stored := Numbered.nil 0
  obtain ⟨ms,hms,hafter⟩ := run_after hnew hops
  refine ⟨ms,hms,?_,?_,?_⟩
  · intro front rest hsplit
    rw [hsplit] at hops
    obtain ⟨y,hy,hfront⟩ := run_after hnew (along_front hops)
    obtain ⟨ms',hms',hrest⟩ := run_after hfront.numbered (along_append hops hy)
    have hboth : newMemoryStorage.run (front++rest)=y.run rest := run_append hy
    rw [← hsplit,hms,hms'] at hboth
    cases hboth
    exact ⟨y,hy,hrest.first⟩
  · rcases hafter.snapshot with hsame | hstored
    · exact ⟨[],newMemoryStorage,List.nil_prefix,rfl,hsame.symm,rfl⟩
    · exact hstored
  · intro op hop hlast
    constructor
    · intro hok
      cases op with
      | append ents => trivial
      | compact k => trivial
      | createSnapshot k cs data =>
        intro hlt
        by_contra hd
        have hpanic : ms.createSnapshot k cs data=.error .indexOutOfRange :=
          ms.createSnapshot_panics (Nat.not_le.mp hd) hlt hlast
        simp only [act,hpanic,reduceCtorEq,false_and,exists_false,or_self] at hok
      | applySnapshot s =>
        intro hlt
        obtain ⟨ms',happ,hindex,-⟩ := applySnapshot_spec hlt
        simp only [act,happ,Except.ok.injEq,reduceCtorEq,or_self,or_false] at hok
        obtain ⟨ms'',rfl,hfirst⟩ := hok
        unfold firstIndex at hfirst
        omega
    · intro hr
      rcases act_passed hafter.numbered hop hr with ⟨ms',hact,hp⟩ | herr
      · exact .inl ⟨ms',hact,hp.first⟩
      · exact .inr herr

/-- Five entries of which the first four are compacted away. -/
def compacted : List Op :=
  [.append [⟨1,1,.entryNormal,[]⟩,⟨1,2,.entryNormal,[]⟩,⟨1,3,.entryNormal,[]⟩,⟨1,4,.entryNormal,[]⟩,
    ⟨1,5,.entryNormal,[]⟩],.compact 4]

theorem compacted_fits : newMemoryStorage.Along (fun ms op => ms.Fits op ∧ ms.Reaches op)
    compacted := by
  refine ⟨⟨.inr ⟨1,?_,by decide⟩,trivial⟩,⟨Nat.le_of_ble_eq_true rfl,trivial⟩,trivial⟩
  intro k e hk
  rcases k with _ | _ | _ | _ | _ | k <;> cases hk <;> rfl

theorem run_sane_compacted : ∃ ms, newMemoryStorage.run compacted=.ok ms ∧ ms.firstIndex=5 ∧
    ∃ ms', ms.act (.createSnapshot 5 none [])=.ok (.ok ms') ∧ ms.firstIndex ≤ ms'.firstIndex := by
  obtain ⟨ms,hms,-,-,hiff⟩ := run_sane compacted compacted_fits
  have hrun : newMemoryStorage.run compacted=.ok
      ⟨{},{},[⟨1,4,.entryNormal,[]⟩,⟨1,5,.entryNormal,[]⟩],by simp⟩ := by rfl
  cases hrun.symm.trans hms
  refine ⟨_,hms,rfl,?_⟩
  have hok := (hiff (.createSnapshot 5 none []) (Nat.le_of_ble_eq_true rfl) (by decide)).mpr
    (fun _ => Nat.le_of_ble_eq_true rfl)
  rcases hok with hok | hok | hok
  · exact hok
  · cases hok
  · cases hok

/-- A snapshot in front of the compacted log: making one reads outside the slice, and applying
one moves the first index back from 5 to 3. -/
theorem compacted_breaks : ∃ ms, newMemoryStorage.run compacted=.ok ms ∧
    ms.Fits (.createSnapshot 2 none []) ∧
    ms.act (.createSnapshot 2 none [])=.error .indexOutOfRange ∧
    ∃ ms', ms.act (.applySnapshot { index := 2, term := 1 })=.ok (.ok ms') ∧
      ms'.firstIndex < ms.firstIndex := by
  refine ⟨⟨{},{},[⟨1,4,.entryNormal,[]⟩,⟨1,5,.entryNormal,[]⟩],by simp⟩,rfl,
    Nat.le_of_ble_eq_true rfl,rfl,_,rfl,?_⟩
  decide

end MemoryStorage

end RaftTesting
