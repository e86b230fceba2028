import RaftTesting.App.Terms

namespace RaftTesting

namespace App

section

variable [Raftpb] [Gob] {n : App} {rn : RawNode}

/-- The node as Restart leaves it, with the new protocol node. -/
def renewed (n : App) (rn : RawNode) : App :=
  { n with
    rn := rn
    obs := []
    pending := none
    worked := false
    halted := none }

/-- What is seen of a node after Restart under the given inputs. -/
def seen (marshal : ConfChange → Bytes) (peers : List Peer) (draws : List Nat) (n : App)
    (is : List Input) : Except Panic (List Obs) := do
  let n ← n.restart marshal peers draws
  .ok (n.run is).obs

theorem seen_eq {marshal : ConfChange → Bytes} {peers : List Peer} {draws : List Nat}
    (h : startNode marshal peers n.id draws=.ok rn) (is : List Input) :
    n.seen marshal peers draws is=.ok ((n.renewed rn).run is).obs := by
  simp only [seen,restart,h]
  rfl

/-- A Ready that carries nothing but a term, messages and committed entries. -/
def bareReady (term : Nat) (msgs : List Message) (ents : List Entry) : Ready where
  softState := none
  hardState := { term := term }
  readStates := []
  entries := []
  snapshot := {}
  committedEntries := ents
  messages := msgs
  mustSync := false

theorem run_get (key : Bytes) :
    ((n.renewed rn).run [.get key]).obs=[.got key (n.kv key)] := rfl

theorem run_ready_same (msgs : List Message) (ents : List Entry) :
    ((n.renewed rn).run [.ready (bareReady n.state.term msgs ents)]).obs=[] := by
  simp [run,input,take,renewed,bareReady,updateTermState]

theorem run_ready_other {term : Nat} (h : n.state.term≠term) (msgs : List Message)
    (ents : List Entry) :
    ((n.renewed rn).run [.ready (bareReady term msgs ents)]).obs=[.termChange term] := by
  simp [run,input,take,renewed,bareReady,updateTermState,h,publish]

/-- The node while it works on a Ready without entries to store. -/
def working (n : App) (rn : RawNode) (rd : Ready) : App :=
  { n.renewed rn with
    rn := rn.acceptReady rd
    pending := some rd
    worked := true }

theorem run_work {rd : Ready} (hterm : rd.hardState.term=n.state.term) (hents : rd.entries=[])
    (hsnap : rd.snapshot={}) : (n.renewed rn).run [.ready rd,.work]=
      ((n.working rn rd).sendMessages rd.messages).applyEntries rd.committedEntries := by
  have hready : (n.renewed rn).input (.ready rd)={ n.working rn rd with worked := false } := by
    simp [input,take,renewed,working,updateTermState,hterm]
  have hsave : rd.save rn.raft.raftLog.storage=.ok rn.raft.raftLog.storage := by
    simp [Ready.save,hents,hsnap,isEmptySnap,MemoryStorage.append]
  change ((n.renewed rn).input (.ready rd)).input .work=_
  rw [hready]
  change (n.working rn rd).work rd=_
  have hsave' : rd.save (n.working rn rd).rn.raft.raftLog.storage=.ok rn.raft.raftLog.storage := hsave
  unfold work
  rw [hsave']
  rfl

theorem run_snap : ((n.renewed rn).run [.ready (bareReady n.state.term
    [{ type := .msgSnap }] []),.work]).obs=[.snapConf n.state.confState] := by
  rw [run_work rfl rfl rfl]
  rfl

/-- Empty entries do nothing but count. -/
theorem emptyEntries_survives (n : App) (f len : Nat) : n.Survives (emptyEntries f len) := by
  induction len generalizing n f with
  | zero => trivial
  | succ len ih => exact ⟨fun _ hh => (by cases hh.1),ih _ (f+1)⟩

omit [Raftpb] [Gob] in
theorem emptyEntries_filter {c f len : Nat} (hf : f≤c+1) :
    (emptyEntries f len).filter (fun e => c<e.index)=emptyEntries (c+1) (f+len-(c+1)) := by
  have hstart : f+(c+1-f)*1=c+1 := by omega
  have hlen : len-(c+1-f)=f+len-(c+1) := by omega
  rw [(emptyEntries_consecutive f len).filter_lt hf,emptyEntries,← List.map_drop,
    List.drop_range',hstart,hlen]
  rfl

/-- With a batch of empty entries that reaches beyond the commit index the node publishes
the entries above it. -/
theorem run_commits {f len : Nat} (hf : f≤n.state.commitIndex+1)
    (hnew : n.state.commitIndex+1<f+len) (hlen : f+len≤2^64) :
    ((n.renewed rn).run [.ready (bareReady n.state.term [] (emptyEntries f len)),.work]).obs.length=
      f+len-(n.state.commitIndex+1) := by
  rw [run_work rfl rfl rfl]
  set m := (n.working rn (bareReady n.state.term [] (emptyEntries f len))).sendMessages [] with hm
  have hb : m.Batch (emptyEntries f len) :=
    emptyEntries_batch rfl hf (by change n.state.commitIndex<2^64; omega) hlen
  have hnews : m.news (emptyEntries f len)=
      emptyEntries (n.state.commitIndex+1) (f+len-(n.state.commitIndex+1)) :=
    emptyEntries_filter hf
  have hfresh : m.Fresh (emptyEntries f len) := by
    refine ⟨fun e he => ?_,hnews ▸ emptyEntries_survives _ _ _⟩
    obtain ⟨es,hes⟩ := List.getLast?_eq_some_iff.mp he
    have hcons := emptyEntries_consecutive f len
    have hcount : (emptyEntries f len).length=len := by simp [emptyEntries]
    rw [hes] at hcons hcount
    simp only [List.length_append,List.length_singleton] at hcount
    change n.state.commitIndex<e.index
    rw [hcons.getLast]
    omega
  obtain ⟨happ,-⟩ := (applies_iff hb).mpr hfresh
  change (m.applyEntries (emptyEntries f len)).obs.length=_
  rw [happ,hnews,applyAll_obs]
  simp [m,emptyEntries,sendMessages,working,renewed]

/-- At the largest commit index every batch that starts above zero stops the process. -/
theorem run_commits_max {f len : Nat} (hmax : n.state.commitIndex+1=2^64) (hf : 0<f)
    (hlen : 0<len) :
    ((n.renewed rn).run [.ready (bareReady n.state.term [] (emptyEntries f len)),.work]).obs=[] := by
  rw [run_work rfl rfl rfl]
  have hne : emptyEntries f len≠[] := by
    simp only [emptyEntries,ne_eq,List.map_eq_nil_iff,List.range'_eq_nil_iff]
    omega
  change (applyEntries _ (emptyEntries f len)).obs=[]
  rw [applyEntries_eq (emptyEntries_consecutive f len) hne,if_pos]
  · rfl
  · change (n.state.commitIndex+1)%2^64<f
    rw [hmax,Nat.mod_self]
    exact hf

variable {n₁ n₂ : App}

theorem commitIndex_seen (rn : RawNode) (hlt : n₁.state.commitIndex<n₂.state.commitIndex)
    (hword : n₂.state.commitIndex<2^64) (hterm : n₁.state.term=n₂.state.term) :
    ∃ is, ((n₁.renewed rn).run is).obs≠((n₂.renewed rn).run is).obs := by
  have hle : n₁.state.commitIndex+1≤n₂.state.commitIndex+1 := by omega
  by_cases hmax : n₂.state.commitIndex+1=2^64
  · have hpos : 0<n₂.state.commitIndex-n₁.state.commitIndex := by omega
    refine ⟨[.ready (bareReady n₁.state.term [] (emptyEntries (n₁.state.commitIndex+1)
      (n₂.state.commitIndex-n₁.state.commitIndex))),.work],fun h => ?_⟩
    have h₁ := congrArg List.length h
    rw [run_commits le_rfl (by omega) (by omega),hterm,
      run_commits_max hmax (Nat.succ_pos _) hpos,List.length_nil] at h₁
    omega
  · refine ⟨[.ready (bareReady n₁.state.term [] (emptyEntries (n₁.state.commitIndex+1)
      (n₂.state.commitIndex-n₁.state.commitIndex+1))),.work],fun h => ?_⟩
    have h₁ := congrArg List.length h
    rw [run_commits le_rfl (by omega) (by omega),hterm,
      run_commits hle (by omega) (by omega)] at h₁
    omega

/-- Two histories of a node cannot be told apart after Restart exactly when they left the
same commit index, configuration and term in the state and the same store. -/
theorem restart_isolates {marshal : ConfChange → Bytes} {peers : List Peer} {draws : List Nat}
    (hid : n₁.id=n₂.id) (hstart : startNode marshal peers n₁.id draws=.ok rn)
    (hword₁ : n₁.state.commitIndex<2^64) (hword₂ : n₂.state.commitIndex<2^64) :
    (∀ is, n₁.seen marshal peers draws is=n₂.seen marshal peers draws is) ↔
      n₁.state.commitIndex=n₂.state.commitIndex ∧ n₁.state.confState=n₂.state.confState ∧
        n₁.state.term=n₂.state.term ∧ n₁.kv=n₂.kv := by
  have hsame : (∀ is, n₁.seen marshal peers draws is=n₂.seen marshal peers draws is) ↔
      ∀ is, ((n₁.renewed rn).run is).obs=((n₂.renewed rn).run is).obs := by
    refine forall_congr' (fun is => ?_)
    rw [seen_eq hstart,seen_eq (hid ▸ hstart),Except.ok.injEq]
  rw [hsame]
  constructor
  · intro h
    have hkv : n₁.kv=n₂.kv := by
      funext key
      simpa [run_get] using h [.get key]
    have hterm : n₁.state.term=n₂.state.term := by
      by_contra hne
      have hready := h [.ready (bareReady n₁.state.term [] [])]
      rw [run_ready_same,run_ready_other (Ne.symm hne)] at hready
      cases hready
    have hconf : n₁.state.confState=n₂.state.confState := by
      have hsnap := h [.ready (bareReady n₁.state.term [{ type := .msgSnap }] []),.work]
      rw [run_snap,hterm,run_snap] at hsnap
      simpa using hsnap
    refine ⟨?_,hconf,hterm,hkv⟩
    rcases lt_trichotomy n₁.state.commitIndex n₂.state.commitIndex with hlt | heq | hgt
    · obtain ⟨is,his⟩ := commitIndex_seen rn hlt hword₂ hterm
      exact absurd (h is) his
    · exact heq
    · obtain ⟨is,his⟩ := commitIndex_seen rn hgt hword₁ hterm.symm
      exact absurd (h is).symm his
  · rintro ⟨hcommit,hconf,hterm,hkv⟩ is
    have hrenewed : n₁.renewed rn=n₂.renewed rn := by
      have hstate : n₁.state=n₂.state := NodeState.ext hcommit hconf hterm
      simp [renewed,hid,hstate,hkv]
    rw [hrenewed]

end

section

local instance : Raftpb := Wire.small

local instance : Gob := ⟨fun _ => none⟩

/-- A history that leaves the state as it was: a heartbeat that is not answered yet. -/
theorem restart_isolates_heartbeat : ∃ rn,
    startNode Wire.marshalConfChange [⟨1,[]⟩,⟨2,[]⟩,⟨3,[]⟩] 1 []=.ok rn ∧
    ((∀ is, started.seen Wire.marshalConfChange [⟨1,[]⟩,⟨2,[]⟩,⟨3,[]⟩] [] is=
        (started.run [heartbeatOf 2]).seen Wire.marshalConfChange [⟨1,[]⟩,⟨2,[]⟩,⟨3,[]⟩] [] is) ↔
      started.state.commitIndex=(started.run [heartbeatOf 2]).state.commitIndex ∧
      started.state.confState=(started.run [heartbeatOf 2]).state.confState ∧
      started.state.term=(started.run [heartbeatOf 2]).state.term ∧
      started.kv=(started.run [heartbeatOf 2]).kv) :=
  ⟨_,rfl,restart_isolates rfl rfl (by decide) (by decide)⟩

/-- The term recorded before Restart is still there, and the first tick publishes nothing. -/
theorem restart_term_leaks :
    started.seen Wire.marshalConfChange [⟨1,[]⟩,⟨2,[]⟩,⟨3,[]⟩] [] [.tick false]=.ok [.termChange 1] ∧
    (started.run [.tick false]).seen Wire.marshalConfChange [⟨1,[]⟩,⟨2,[]⟩,⟨3,[]⟩] []
      [.tick false]=.ok [] := ⟨rfl,rfl⟩

end

end App

end RaftTesting
