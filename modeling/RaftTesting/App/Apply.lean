import RaftTesting.App.Loop
import RaftTesting.Log.Whole
import RaftTesting.Protocol.Wire

namespace RaftTesting

namespace App

section

variable [Raftpb] [Gob] {n : App} {e : Entry} {b es : List Entry}

omit [Raftpb] in
@[simp] theorem set_obs (n : App) (data : Bytes) : (n.set data).obs=n.obs := by
  unfold set
  split <;> rfl

omit [Raftpb] in
@[simp] theorem set_state (n : App) (data : Bytes) : (n.set data).state=n.state := by
  unfold set
  split <;> rfl

omit [Raftpb] in
theorem set_halted (n : App) (data : Bytes) : (n.set data).halted=n.halted := by
  unfold set
  split <;> rfl

omit [Gob] in
@[simp] theorem applyConfChange_obs (n : App) (cc : ConfChange) :
    (n.applyConfChange cc).obs=n.obs := by
  unfold applyConfChange
  split
  · rfl
  · dsimp only
    split_ifs <;> rfl

omit [Gob] in
@[simp] theorem applyConfChange_commitIndex (n : App) (cc : ConfChange) :
    (n.applyConfChange cc).state.commitIndex=n.state.commitIndex := by
  unfold applyConfChange
  split
  · rfl
  · dsimp only
    split_ifs <;> rfl

@[simp] theorem applyEntry_obs (n : App) (e : Entry) :
    (n.applyEntry e).obs=n.obs++[.commit e.index e.data] := by
  unfold applyEntry publish
  cases e.type <;> dsimp only
  · split_ifs <;> simp
  · simp

@[simp] theorem applyEntry_commitIndex (n : App) (e : Entry) :
    (n.applyEntry e).state.commitIndex=e.index := by
  unfold applyEntry
  cases e.type <;> dsimp only
  · split_ifs <;> simp
  · simp

theorem applyAll_obs (n : App) (es : List Entry) :
    (es.foldl applyEntry n).obs=n.obs++es.map (fun e => .commit e.index e.data) := by
  induction es generalizing n with
  | nil => simp
  | cons e es ih => simp [ih]

theorem applyAll_commitIndex (n : App) (es : List Entry) (e : Entry) :
    ((es++[e]).foldl applyEntry n).state.commitIndex=e.index := by
  simp

omit [Gob] in
/-- The entry halts the node: the configuration does not allow its change, the leader fails to
make the change known, or the node itself is removed. -/
def Halts (n : App) (e : Entry) : Prop :=
  e.type=.entryConfChange ∧ ((confChange e).type=.removeNode ∧ (confChange e).nodeID=n.id ∨
    match Changer.change ⟨n.rn.raft.prs,n.rn.raft.raftLog.lastIndex⟩
        (Raftpb.asV2 (confChange e)) with
    | .error _ => True
    | .ok t => (n.rn.raft.switchToConfig t).isOk=false)

omit [Gob] in
/-- A running node comes to a halt for one of the three reasons only. -/
theorem applyConfChange_halted (hrun : n.halted=none) (ht : e.type=.entryConfChange) :
    (n.applyConfChange (confChange e)).halted=none ↔ ¬n.Halts e := by
  unfold applyConfChange Halts RawNode.applyConfChange Raft.applyConfChange
  rw [and_iff_right ht]
  cases Changer.change ⟨n.rn.raft.prs,n.rn.raft.raftLog.lastIndex⟩
      (Raftpb.asV2 (confChange e)) with
  | error err => simp [bind,Except.bind]
  | ok t =>
    dsimp only
    cases n.rn.raft.switchToConfig t with
    | error p => simp [bind,Except.bind,Except.isOk,Except.toBool]
    | ok res =>
      simp only [bind,Except.bind,Except.isOk,Except.toBool,Bool.true_eq_false,or_false]
      split_ifs with hself <;> simp [hself,hrun]

theorem applyEntry_halted (hrun : n.halted=none) (e : Entry) :
    (n.applyEntry e).halted=none ↔ ¬n.Halts e := by
  have hno : e.type≠.entryConfChange → ¬n.Halts e := fun ht hh => ht hh.1
  unfold applyEntry
  cases ht : e.type with
  | entryConfChange => exact applyConfChange_halted (n := { n.publish _ with state := _ }) hrun ht
  | entryNormal =>
    refine iff_of_true ?_ (hno (by rw [ht]; nofun))
    dsimp only
    split_ifs
    · exact hrun
    · exact (set_halted _ _).trans hrun
  | entryConfChangeV2 => exact iff_of_true hrun (hno (by rw [ht]; nofun))

/-- No entry before the last one halts the node. -/
def Survives (n : App) : List Entry → Prop
  | [] => True
  | e::es => (es≠[] → ¬n.Halts e) ∧ (n.applyEntry e).Survives es

/-- The loop leaves something out exactly when an entry before the last one halts the node. -/
theorem applyLoop_eq_iff (hrun : n.halted=none) (es : List Entry) :
    n.applyLoop es=es.foldl applyEntry n ↔ n.Survives es := by
  induction es generalizing n with
  | nil => simp [applyLoop,Survives]
  | cons e es ih =>
    simp only [applyLoop,Survives,List.foldl_cons,← applyEntry_halted hrun e]
    cases hh : (n.applyEntry e).halted with
    | none => simp [ih hh]
    | some x =>
      cases es with
      | nil => simp [Survives]
      | cons e' es =>
        -- one event has been published, the fold publishes at least two
        have hobs : n.applyEntry e≠(e'::es).foldl applyEntry (n.applyEntry e) := by
          intro h
          have hlen := congrArg (fun n => n.obs.length) h
          simp only [applyAll_obs,applyEntry_obs,List.length_append,List.length_map,
            List.length_cons] at hlen
          omega
        simp only [Option.isSome_some,if_true,hobs,false_iff]
        simp

/-- A batch of committed entries as a running node may get it: consecutive indices that
start at or below the next one. All indices are uint64. -/
structure Batch (n : App) (b : List Entry) : Prop where
  running : n.halted=none
  word : n.state.commitIndex<2^64
  words : ∀ e∈b, e.index<2^64
  consecutive : ∃ f, f≤n.state.commitIndex+1 ∧ Consecutive f b

/-- The entries that the node has not applied yet. -/
def news (n : App) (b : List Entry) : List Entry :=
  b.filter (fun e => n.state.commitIndex<e.index)

/-- The batch is applied as it should be: the new entries and no others, in order, and the
commit index does not go back. -/
def Applies (n : App) (b : List Entry) : Prop :=
  n.applyEntries b=(n.news b).foldl applyEntry n ∧
    n.state.commitIndex≤(n.applyEntries b).state.commitIndex

/-- The batch is not entirely old, and no new entry before its last one halts the node. -/
def Fresh (n : App) (b : List Entry) : Prop :=
  (∀ e, b.getLast?=some e → n.state.commitIndex<e.index) ∧ n.Survives (n.news b)

theorem applyEntries_eq {f : Nat} (h : Consecutive f b) (hne : b≠[]) :
    n.applyEntries b=if (n.state.commitIndex+1)%2^64<f then { n with halted := some .tooBig }
      else n.applyLoop (if (usub n.state.commitIndex f+1)%2^64<b.length
        then b.drop ((usub n.state.commitIndex f+1)%2^64) else b) := by
  cases b with
  | nil => exact absurd rfl hne
  | cons a b => simp only [applyEntries,h.head]

theorem applyLoop_obs_le (n : App) (es : List Entry) :
    n.obs.length≤(n.applyLoop es).obs.length := by
  induction es generalizing n with
  | nil => exact le_rfl
  | cons e es ih =>
    have hstep : n.obs.length≤(n.applyEntry e).obs.length := by simp
    simp only [applyLoop]
    split_ifs
    · exact hstep
    · exact hstep.trans (ih _)

theorem applyLoop_obs_lt (n : App) (hne : es≠[]) :
    n.obs.length<(n.applyLoop es).obs.length := by
  cases es with
  | nil => exact absurd rfl hne
  | cons e es =>
    have hstep : n.obs.length<(n.applyEntry e).obs.length := by simp
    simp only [applyLoop]
    split_ifs
    · exact hstep
    · exact hstep.trans_le (applyLoop_obs_le _ _)

omit [Raftpb] [Gob] in
/-- The number of entries that applyEntries skips, computed on uint64. -/
theorem skip_eq {c f : Nat} (hc : c+1<2^64) (hf : f≤c+1) : (usub c f+1)%2^64=c+1-f := by
  unfold usub
  split_ifs <;> omega

/-- A batch with a new entry is cut down to its new entries. -/
theorem applyEntries_new (hb : n.Batch (es++[e])) (hnew : n.state.commitIndex<e.index) :
    n.applyEntries (es++[e])=n.applyLoop (n.news (es++[e])) := by
  obtain ⟨f,hf,hcons⟩ := hb.consecutive
  have hlast : e.index=f+es.length := hcons.getLast
  have hword : e.index<2^64 := hb.words e (by simp)
  have hc : n.state.commitIndex+1<2^64 := by omega
  have hfit : ¬n.state.commitIndex+1<f := by omega
  have hcut : n.state.commitIndex+1-f<(es++[e]).length := by
    simp only [List.length_append,List.length_singleton]
    omega
  rw [applyEntries_eq hcons (by simp),Nat.mod_eq_of_lt hc,skip_eq hc hf,if_neg hfit,if_pos hcut,
    news,hcons.filter_lt hf]

/-- Nothing is cut off an old batch. At the largest commit index the next one wraps, and
either the batch starts at zero or the process is stopped. -/
theorem applyEntries_old (hb : n.Batch (es++[e])) (hold : e.index≤n.state.commitIndex) :
    n.applyEntries (es++[e])={ n with halted := some .tooBig } ∨
      n.applyEntries (es++[e])=n.applyLoop (es++[e]) := by
  obtain ⟨f,hf,hcons⟩ := hb.consecutive
  have hlast : e.index=f+es.length := hcons.getLast
  have hword := hb.word
  rw [applyEntries_eq hcons (by simp)]
  split_ifs with hfit hcut
  · exact .inl rfl
  · right
    by_cases hc : n.state.commitIndex+1<2^64
    · rw [skip_eq hc hf] at hcut
      simp only [List.length_append,List.length_singleton] at hcut
      omega
    · have hmax : n.state.commitIndex=2^64-1 := by omega
      have hzero : f=0 := by
        rw [hmax] at hfit
        simpa using hfit
      rw [hmax,hzero]
      rfl
  · exact .inr rfl

omit [Raftpb] [Gob] in
theorem news_old (hb : n.Batch (es++[e])) (hold : e.index≤n.state.commitIndex) :
    n.news (es++[e])=[] := by
  obtain ⟨f,hf,hcons⟩ := hb.consecutive
  have hlast : e.index=f+es.length := hcons.getLast
  rw [news,hcons.filter_lt hf,List.drop_eq_nil_iff]
  simp only [List.length_append,List.length_singleton]
  omega

omit [Raftpb] [Gob] in
/-- The new entries follow the commit index and end with the batch. -/
theorem news_new (hb : n.Batch (es++[e])) (hnew : n.state.commitIndex<e.index) :
    Consecutive (n.state.commitIndex+1) (n.news (es++[e])) ∧
      ∃ es', n.news (es++[e])=es'++[e] := by
  obtain ⟨f,hf,hcons⟩ := hb.consecutive
  constructor
  · have hdrop := hcons.drop (n.state.commitIndex+1-f)
    rwa [Nat.add_sub_cancel' hf,← hcons.filter_lt hf] at hdrop
  · refine ⟨es.filter (fun e => n.state.commitIndex<e.index),?_⟩
    simp [news,List.filter_append,hnew]

theorem applies_iff (hb : n.Batch b) : n.Applies b ↔ n.Fresh b := by
  rcases List.eq_nil_or_concat b with rfl | ⟨es,e,rfl⟩
  · simp [Applies,Fresh,applyEntries,news,Survives]
  rw [List.concat_eq_append] at hb ⊢
  by_cases hnew : n.state.commitIndex<e.index
  · have hloop := applyEntries_new hb hnew
    obtain ⟨-,es',hes⟩ := news_new hb hnew
    have hfresh : n.Fresh (es++[e]) ↔ n.Survives (n.news (es++[e])) := by
      simp [Fresh,hnew]
    rw [hfresh,← applyLoop_eq_iff hb.running,Applies,hloop]
    refine ⟨And.left,fun heq => ⟨heq,?_⟩⟩
    rw [heq,hes,applyAll_commitIndex]
    exact hnew.le
  · have hold : e.index≤n.state.commitIndex := Nat.not_lt.mp hnew
    have hstale : ¬n.Fresh (es++[e]) := fun h => hnew (h.1 e (by simp))
    refine iff_of_false (fun happ => ?_) hstale
    have heq : n.applyEntries (es++[e])=n := by
      rw [happ.1,news_old hb hold]
      rfl
    rcases applyEntries_old hb hold with hbig | hall
    · have hrun := hb.running
      rw [← heq,hbig] at hrun
      cases hrun
    · have hgrow : n.obs.length<(n.applyLoop (es++[e])).obs.length :=
        applyLoop_obs_lt n (by simp)
      rw [← hall,heq] at hgrow
      exact lt_irrefl _ hgrow

/-- The batches are given to applyEntries one after the other. -/
def applyBatches (n : App) (bs : List (List Entry)) : App := bs.foldl applyEntries n

/-- Every batch is a proper one when its turn comes and meets the condition. -/
def FreshRun (n : App) : List (List Entry) → Prop
  | [] => True
  | b::bs => n.Batch b ∧ n.Fresh b ∧ (n.applyEntries b).FreshRun bs

theorem applyBatches_eq (n : App) (bs : List (List Entry)) (h : n.FreshRun bs) :
    ∃ es, n.applyBatches bs=es.foldl applyEntry n ∧ Consecutive (n.state.commitIndex+1) es := by
  induction bs generalizing n with
  | nil => exact ⟨[],rfl,fun k e hk => by simp at hk⟩
  | cons b bs ih =>
    obtain ⟨hb,hfresh,hrest⟩ := h
    obtain ⟨heq,-⟩ := (applies_iff hb).mpr hfresh
    obtain ⟨es,hes,hcons⟩ := ih _ hrest
    change applyBatches (n.applyEntries b) bs=_ at hes
    rcases List.eq_nil_or_concat b with rfl | ⟨es',e,rfl⟩
    · exact ⟨es,hes,hcons⟩
    rw [List.concat_eq_append] at hb hfresh heq hes hcons
    have hnew : n.state.commitIndex<e.index := hfresh.1 e (by simp)
    obtain ⟨hfirst,init,hinit⟩ := news_new hb hnew
    refine ⟨n.news (es'++[e])++es,?_,hfirst.append ?_⟩
    · rw [List.foldl_append,← heq,← hes,List.concat_eq_append]
      rfl
    · have hindex : e.index=n.state.commitIndex+1+init.length := by
        rw [hinit] at hfirst
        exact hfirst.getLast
      rw [heq,hinit,applyAll_commitIndex,hindex] at hcons
      rw [hinit,List.length_append,List.length_singleton]
      exact hcons

/-- A batch is applied as it should be exactly when it is not entirely old and no entry
halts the node before its last one. Over batches that are so, every entry is applied once. -/
theorem applyEntries_once (n : App) :
    (∀ b, n.Batch b → (n.Applies b ↔ n.Fresh b)) ∧
    ∀ bs, n.FreshRun bs → ∃ es, n.applyBatches bs=es.foldl applyEntry n ∧
      Consecutive (n.state.commitIndex+1) es ∧ (es.map Entry.index).Nodup := by
  refine ⟨fun b => applies_iff,fun bs h => ?_⟩
  obtain ⟨es,hes,hcons⟩ := applyBatches_eq n bs h
  refine ⟨es,hes,hcons,?_⟩
  rw [hcons.map_index]
  exact List.nodup_range'

end

section

local instance : Raftpb := Wire.small

/-- A store whose proposals are all undecodable. -/
local instance : Gob := ⟨fun _ => none⟩

/-- A node that has applied the entries up to an index. -/
def appliedUpTo (c : Nat) : App where
  id := 1
  rn :=
    let r := Raft.blank (config 1) []
    ⟨r,r.softState,r.hardState⟩
  state := { commitIndex := c }

/-- Empty entries with consecutive indices. -/
def emptyEntries (f len : Nat) : List Entry :=
  (List.range' f len).map (fun i => { (default : Entry) with index := i })

theorem emptyEntries_consecutive (f len : Nat) : Consecutive f (emptyEntries f len) := by
  intro k e hk
  simp only [emptyEntries,List.getElem?_map,Option.map_eq_some_iff] at hk
  grind

theorem emptyEntries_batch {n : App} {f len : Nat} (hrun : n.halted=none)
    (hf : f≤n.state.commitIndex+1) (hc : n.state.commitIndex<2^64) (hlen : f+len≤2^64) :
    n.Batch (emptyEntries f len) where
  running := hrun
  word := hc
  words := by
    intro e he
    simp only [emptyEntries,List.mem_map,List.mem_range'_1] at he
    obtain ⟨i,hi,rfl⟩ := he
    change i<2^64
    omega
  consecutive := ⟨f,hf,emptyEntries_consecutive f len⟩

theorem applyEntries_once_overlap :
    ((appliedUpTo 2).Batch (emptyEntries 1 4) ∧
      ((appliedUpTo 2).Applies (emptyEntries 1 4) ↔ (appliedUpTo 2).Fresh (emptyEntries 1 4))) ∧
    (appliedUpTo 2).FreshRun [emptyEntries 1 4,emptyEntries 4 3] ∧
    ∃ es, (appliedUpTo 2).applyBatches [emptyEntries 1 4,emptyEntries 4 3]=
        es.foldl applyEntry (appliedUpTo 2) ∧
      Consecutive 3 es ∧ (es.map Entry.index).Nodup := by
  have hb : (appliedUpTo 2).Batch (emptyEntries 1 4) :=
    emptyEntries_batch rfl (by decide) (by decide) (by decide)
  have hfirst : (appliedUpTo 2).Fresh (emptyEntries 1 4) := by
    refine ⟨fun e he => ?_,fun _ hh => (by cases hh.1),fun _ hh => (by cases hh.1),trivial⟩
    cases he
    decide
  have hrun : (appliedUpTo 2).FreshRun [emptyEntries 1 4,emptyEntries 4 3] := by
    refine ⟨hb,hfirst,?_,⟨fun e he => ?_,fun _ hh => (by cases hh.1),
      fun _ hh => (by cases hh.1),trivial⟩,trivial⟩
    · exact ⟨rfl,by decide,by decide,4,by decide,emptyEntries_consecutive 4 3⟩
    · cases he
      decide
  exact ⟨⟨hb,(applyEntries_once _).1 _ hb⟩,hrun,(applyEntries_once _).2 _ hrun⟩

/-- Entries 3 and 4 come again when 5 has been applied. -/
theorem applyEntries_again : (appliedUpTo 5).Batch (emptyEntries 3 2) ∧
    ¬(appliedUpTo 5).Applies (emptyEntries 3 2) ∧
    ((appliedUpTo 5).applyEntries (emptyEntries 3 2)).obs=[.commit 3 [],.commit 4 []] ∧
    ((appliedUpTo 5).applyEntries (emptyEntries 3 2)).state.commitIndex=4 := by
  refine ⟨emptyEntries_batch rfl (by decide) (by decide) (by decide),?_,rfl,rfl⟩
  rintro ⟨-,hle⟩
  exact absurd hle (by decide)

end

end App

end RaftTesting
