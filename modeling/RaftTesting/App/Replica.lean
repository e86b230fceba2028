import RaftTesting.App.Apply
import RaftTesting.App.Service
import RaftTesting.Cluster.Boot
import RaftTesting.Cluster.Validity

namespace RaftTesting

open Consensus

namespace Host

section

variable [Raftpb] {F : Founding} {B : Base Entry} {h : Hist Entry} {i a : Nat} {H H' : Host}
  {e : Event} {ms : List Message}

/-- Only applying an entry is progress of the application. -/
theorem Does.done_same (hp : HostPlaced F B h i a H) (hh : HistInv B h)
    (hg : h.Governed F.succession B) (hst : ∀ m, e.message H.rn.raft.id=some m → m.Stamped)
    (hne : e≠.apply) (hd : H.Does e H' ms) : H'.done=H.done := by
  have hsame : ∀ {r : Raft}, r.raftLog.applied=H.rn.raft.raftLog.applied →
      Host.done { H with rn := { H.rn with raft := r } }=H.done := by
    intro r hr
    unfold Host.done
    dsimp only
    rw [hr]
  cases hd with
  | stay => rfl
  | step hm hr =>
    exact hsame (Raft.step_moves (S := fun _ => True) (fun _ => trivial) (hst _ hm) hr).fixed.2
  | tick hr => exact hsame (Raft.tick_moves (S := fun _ => True) hr).fixed.2
  | ready hnone hr => exact (hp.ready hnone hr).done_eq.trans hp.done_eq.symm
  | save => rfl
  | apply => exact absurd rfl hne
  | advance hrd hsv hap hr =>
    obtain ⟨h',-,-,-,hp',-⟩ := hp.advance hh hg (P := fun _ _ => True) (fun _ _ _ _ => trivial)
      (fun _ => trivial) trivial hrd hsv hap hr
    exact hp'.done_eq.trans hp.done_eq.symm

theorem applyEntry_done (hp : HostPlaced F B h i a H) (hh : HistInv B h)
    (hg : h.Governed F.succession B) {e : Entry} {es : List Entry} (hap : H.toApply=e::es)
    (ha : H.applyEntry e=.ok H') : Host.done { H' with toApply := es }=H.done+1 := by
  obtain ⟨h',-,-,-,hp',-⟩ := hp.apply hh hg (P := fun _ _ => True) (fun _ _ _ _ => trivial)
    (fun _ => trivial) trivial hap ha
  rw [hp'.done_eq,hp.done_eq]

theorem act_recv {m : Message} {rn : RawNode} {err : Option StepErr}
    (h : H.rn.stepRaft m=.ok (rn,err)) : H.act (.recv m)=.ok ({ H with rn := rn },[]) := by
  change (H.step m >>= _)=_
  unfold step
  rw [h]
  rfl

theorem act_call {c : Call} {rn : RawNode} {err : Option StepErr}
    (h : H.rn.stepRaft (c.message H.rn.raft.id)=.ok (rn,err)) :
    H.act (.call c)=.ok ({ H with rn := rn },[]) := by
  change (H.step (c.message H.rn.raft.id) >>= _)=_
  unfold step
  rw [h]
  rfl

theorem act_tick {rn : RawNode} (h : H.rn.tick=.ok rn) :
    H.act .tick=.ok ({ H with rn := rn },[]) := by
  change (H.rn.tick >>= _)=_
  rw [h]
  rfl

theorem act_ready {rd : Ready} (hp : H.pending=none) (h : H.rn.readyWithoutAccept=.ok rd) :
    H.act .ready=.ok (⟨H.rn.acceptReady rd,some rd,false,rd.committedEntries⟩,rd.messages) := by
  unfold act RawNode.ready
  rw [hp,h]
  rfl

theorem act_save {rd : Ready} {ms : MemoryStorage} (hp : H.pending=some rd) (hs : H.saved=false)
    (hms : rd.save H.rn.raft.raftLog.storage=.ok ms) : H.act .save=.ok ({ H with
      rn := { H.rn with raft := H.rn.raft.setLog { H.rn.raft.raftLog with storage := ms } }
      saved := true },[]) := by
  unfold act
  rw [hp,hs]
  dsimp only
  rw [hms]
  rfl

theorem act_apply {e : Entry} {es : List Entry} (hap : H.toApply=e::es) (hs : H.saved=true)
    (ha : H.applyEntry e=.ok H') : H.act .apply=.ok ({ H' with toApply := es },[]) := by
  unfold act
  rw [hap,hs]
  dsimp only
  rw [ha]
  rfl

theorem act_advance {rd : Ready} {rn : RawNode} (hp : H.pending=some rd) (hs : H.saved=true)
    (hap : H.toApply=[]) (ha : H.rn.advance rd=.ok rn) :
    H.act .advance=.ok ({ H with rn := rn, pending := none, saved := false },[]) := by
  unfold act
  rw [hp,hs,hap]
  dsimp only
  rw [ha]
  rfl

end

end Host

/-- The entry that a Commit event tells of. -/
def Obs.commit? : Obs → Option (Nat × Bytes)
  | .commit index data => some (index,data)
  | _ => none

namespace App

section

variable [Gob]

/-- What an entry does to the store. -/
def store (kv : Bytes → Option Bytes) (e : Entry) : Bytes → Option Bytes :=
  if e.type=.entryNormal ∧ e.data≠[] then
    ((Gob.decode e.data).map (fun p => Function.update kv p.1 (some p.2))).getD kv
  else kv

/-- The store that the entries of a log lead to. -/
def replay (es : List Entry) : Bytes → Option Bytes := es.foldl store (fun _ => none)

/-- What a node has reported as committed. -/
def commits (obs : List Obs) : List (Nat × Bytes) := obs.filterMap Obs.commit?

/-- The node has applied a first part of the log: its store is what that part leads to, and
that part is what it has reported. -/
structure Follows (log : List Entry) (n : App) : Prop where
  fits : n.state.commitIndex≤log.length
  kv : n.kv=replay (log.take n.state.commitIndex)
  told : commits n.obs=(log.take n.state.commitIndex).map (fun e => (e.index,e.data))

omit [Gob] in
theorem commits_sendMessages (n : App) (msgs : List Message) :
    commits (n.sendMessages msgs).obs=commits n.obs := by
  have hnone : ((msgs.filter (fun m => m.type=.msgSnap)).map
      (fun _ => Obs.snapConf n.state.confState)).filterMap Obs.commit?=[] := by
    rw [List.filterMap_map]
    exact List.filterMap_eq_nil_iff.mpr (fun _ _ => rfl)
  unfold sendMessages commits
  rw [List.filterMap_append,hnone,List.append_nil]

variable {log log' : List Entry} {n n' : App} {e : Entry}

theorem Follows.grow (hf : n.Follows log) (hl : log<+:log') : n.Follows log' := by
  have htake : log'.take n.state.commitIndex=log.take n.state.commitIndex := by
    obtain ⟨es,rfl⟩ := hl
    exact List.take_append_of_le_length hf.fits
  exact ⟨hf.fits.trans hl.length_le,htake ▸ hf.kv,htake ▸ hf.told⟩

/-- The number of reports tells how far the node is. -/
theorem Follows.reported (hf : n.Follows log) : (commits n.obs).length=n.state.commitIndex := by
  rw [hf.told,List.length_map,List.length_take_of_le hf.fits]

theorem Follows.same (hf : n.Follows log) (hs : n'.state.commitIndex=n.state.commitIndex)
    (hkv : n'.kv=n.kv) (ht : commits n'.obs=commits n.obs) : n'.Follows log :=
  ⟨hs ▸ hf.fits,by rw [hkv,hs]; exact hf.kv,by rw [ht,hs]; exact hf.told⟩

end

section

variable [Raftpb] [Gob] {log : List Entry} {n : App} {e : Entry}

omit [Gob] in
@[simp] theorem applyConfChange_kv (n : App) (cc : ConfChange) :
    (n.applyConfChange cc).kv=n.kv := by
  unfold applyConfChange
  split
  · rfl
  · dsimp only
    split_ifs <;> rfl

theorem input_running (h : n.halted=none) (x : Input) : n.input x=n.take x := by
  simp [input,h]

omit [Gob] in
theorem applyConfChange_ok {cc : ConfChange} {rn : RawNode} {cs : ConfState}
    (h : n.rn.applyConfChange (Raftpb.asV2 cc)=.ok (rn,cs)) :
    (n.applyConfChange cc).rn=rn ∧ (n.applyConfChange cc).id=n.id ∧
      (n.applyConfChange cc).pending=n.pending ∧ (n.applyConfChange cc).worked=n.worked := by
  unfold applyConfChange
  rw [h]
  dsimp only
  split_ifs <;> exact ⟨rfl,rfl,rfl,rfl⟩

omit [Raftpb] in
theorem set_kv (n : App) (data : Bytes) : (n.set data).kv=
    ((Gob.decode data).map (fun p => Function.update n.kv p.1 (some p.2))).getD n.kv := by
  unfold set
  cases Gob.decode data with
  | none => rfl
  | some p =>
    funext k
    exact (Function.update_apply ..).symm

theorem applyEntry_kv (n : App) (e : Entry) : (n.applyEntry e).kv=store n.kv e := by
  unfold applyEntry store publish
  cases ht : e.type <;> dsimp only
  · by_cases hd : e.data=[]
    · rw [if_pos hd,if_neg (fun h => h.2 hd)]
    · rw [if_neg hd,if_pos ⟨rfl,hd⟩,set_kv]
  · rw [applyConfChange_kv,if_neg (fun h => by cases h.1)]
  · rw [if_neg (fun h => by cases h.1)]

/-- A node that applies the next entry of the log has followed it. -/
theorem Follows.applyEntry (hf : n.Follows log) (he : log[n.state.commitIndex]?=some e)
    (hi : e.index=n.state.commitIndex+1) : (n.applyEntry e).Follows log := by
  have htake : log.take e.index=log.take n.state.commitIndex++[e] := by
    rw [hi,List.take_add_one,he]
    rfl
  refine ⟨?_,?_,?_⟩
  · rw [applyEntry_commitIndex,hi]
    exact (List.getElem?_eq_some_iff.mp he).1
  · rw [applyEntry_kv,applyEntry_commitIndex,htake,hf.kv]
    unfold replay
    rw [List.foldl_append]
    rfl
  · rw [applyEntry_obs,applyEntry_commitIndex,htake,List.map_append,← hf.told]
    exact List.filterMap_append

/-- The entries that follow the commit index are all applied, unless the index of the first one
is beyond the words. -/
theorem applyEntries_next (es : List Entry) (he : e.index=n.state.commitIndex+1) :
    n.applyEntries (e::es)={ n with halted := some .tooBig } ∨
      n.applyEntries (e::es)=n.applyLoop (e::es) := by
  unfold applyEntries
  dsimp only
  split_ifs with hbig hcut
  · exact .inl rfl
  · have hc : n.state.commitIndex+1<2^64 := by
      by_contra hover
      have hmod : (n.state.commitIndex+1)%2^64<2^64 := Nat.mod_lt _ (by decide)
      omega
    rw [he,skip_eq hc le_rfl,Nat.sub_self]
    exact .inr rfl
  · exact .inr rfl

end

end App

/-- What the servers have their nodes replicate, with U saying what clients have put. -/
inductive Payload [Raftpb] [Gob] (C : Codec) (U : Bytes → Bytes → Prop) : EntryType × Bytes → Prop
  | blank : Payload C U (.entryNormal,[])
  | put {key val : Bytes} (h : U key val) : Payload C U (.entryNormal,C.encode key val)
  | change (cc : ConfChange) : Payload C U (.entryConfChange,C.marshal cc)

/-- What events at host i make of a cluster. -/
structure Cluster.Goes (c : Cluster) (i : Nat) (c' : Cluster) : Prop where
  decided : c.decided<+:c'.decided
  net : c.net ⊆ c'.net
  others : ∀ j, j≠i → c'.hosts.get? j=c.hosts.get? j

theorem Cluster.Goes.refl (c : Cluster) (i : Nat) : c.Goes i c :=
  ⟨List.prefix_refl _,List.Subset.refl _,fun _ _ => rfl⟩

theorem Cluster.Goes.trans {c c' c'' : Cluster} {i : Nat} (h : c.Goes i c') (h' : c'.Goes i c'') :
    c.Goes i c'' :=
  ⟨h.decided.trans h'.decided,List.Subset.trans h.net h'.net,
    fun j hj => (h'.others j hj).trans (h.others j hj)⟩

section

variable [Raftpb] [Gob] {C : Codec} {U : Bytes → Bytes → Prop}

/-- An entry is a normal one, or a change that raftloop decodes as the leader did. -/
theorem Payload.kind {e : Entry} (h : Payload C U e.payload) :
    e.type=.entryNormal ∧ Raft.confChangeOf e=.ok none ∨ e.type=.entryConfChange ∧
      Raft.confChangeOf e=.ok (some (Raftpb.asV2 (App.confChange e))) := by
  obtain ⟨term,index,type,data⟩ := e
  change Payload C U (type,data) at h
  cases h with
  | blank => exact .inl ⟨rfl,rfl⟩
  | put => exact .inl ⟨rfl,rfl⟩
  | change cc =>
    obtain ⟨cc',hcc⟩ := Option.isSome_iff_exists.mp (C.unmarshal_marshal cc)
    refine .inr ⟨rfl,?_⟩
    unfold Raft.confChangeOf App.confChange
    dsimp only
    rw [hcc]
    rfl

/-- Single changes lead to no configuration that is left by itself. -/
theorem path_autoLeave {F : Founding} (hF : F.cfg.autoLeave=false) {es : List Entry}
    {cfg : TrackerConfig} (hp : F.succession.Path es cfg)
    (hes : ∀ e ∈ es, Payload C U e.payload) : cfg.autoLeave=false := by
  induction hp with
  | start => exact hF
  | @step es cfg e cfg' _ hnext ih =>
    obtain ⟨c,cc,t,-,-,hcc,hc,rfl⟩ := hnext
    rcases (hes e (by simp)).kind with ⟨-,hnone⟩ | ⟨-,hsome⟩
    · cases hcc.symm.trans hnone
    · cases hcc.symm.trans hsome
      exact (Changer.change_single hc).1

end

/-- A cluster of the servers' nodes. -/
structure World [Raftpb] [Gob] (C : Codec) (U : Bytes → Bytes → Prop) (F : Founding)
    (B : Base Entry) (c : Cluster) : Prop where
  single : F.cfg.autoLeave=false
  realm : ∃ h, Realm F B h c
  holds : c.Holds (Payload C U)

section

variable [Raftpb] [Gob] {C : Codec} {U : Bytes → Bytes → Prop} {F : Founding} {B : Base Entry}
  {c c' : Cluster} {i : Nat} {H H' : Host} {e : Event} {ms : List Message}

namespace World

theorem autoLeave (hw : World C U F B c) (hH : c.hosts.get? i=some H) :
    H.rn.raft.prs.config.autoLeave=false := by
  obtain ⟨h,hr⟩ := hw.realm
  obtain ⟨a,hp⟩ := hr.hosts i H hH
  refine path_autoLeave (C := C) (U := U) hw.single hp.placed.path (fun e he => ?_)
  exact (hw.holds.hosts i H hH).node.log.all e
    (List.take_subset _ _ (List.mem_of_mem_filter he))

theorem goes (hw : World C U F B c) (hprop : ∀ p, e.Proposes p → Payload C U p)
    (ha : c.act i e=.ok c') : World C U F B c' ∧ c.Goes i c' := by
  obtain ⟨h,hr⟩ := hw.realm
  obtain ⟨h',-,hr'⟩ := hr.step ha
  have hholds := hr.holds (P := Payload C U) .blank
    (fun H hH hauto => by cases (hw.autoLeave hH).symm.trans hauto) hprop hw.holds ha
  refine ⟨⟨hw.single,⟨h',hr'⟩,hholds⟩,(hr.ledger_steps ha).log_isPrefix,?_,?_⟩
  · rcases Cluster.act_cases ha with rfl | ⟨H,H',ms,-,-,-,rfl⟩
    · exact List.Subset.refl _
    · exact List.subset_append_left _ _
  · intro j hj
    rcases Cluster.act_cases ha with rfl | ⟨H,H',ms,-,-,-,rfl⟩
    · rfl
    · exact SortedMap.get?_insert_ne _ _ hj

/-- The hosts' messages are no snapshots. -/
theorem not_snap (hw : World C U F B c) {m : Message} (hm : m ∈ c.net) : m.type≠.msgSnap := by
  obtain ⟨h,hr⟩ := hw.realm
  intro ht
  have hok := (hr.net m hm).1
  unfold Message.Ok at hok
  rw [ht] at hok
  exact hok

/-- What is decided stands in one of the logs. -/
theorem decided_cases (hw : World C U F B c) : c.decided=[] ∨ ∃ i H h a,
    c.hosts.get? i=some H ∧ HostPlaced F B h i a H ∧ c.decided=H.committedLog := by
  obtain ⟨h,hr⟩ := hw.realm
  by_cases hnil : c.hosts.pairs.map (fun p => p.2.committedLog)=[]
  · left
    unfold Cluster.decided
    rw [hnil]
    rfl
  · obtain ⟨i,H,hH,hlog⟩ := Cluster.mem_committed.mp (longest_mem hnil)
    obtain ⟨a,hp⟩ := hr.hosts i H hH
    exact .inr ⟨i,H,h,a,hH,hp,hlog⟩

theorem numbered (hw : World C U F B c) : Numbered 0 c.decided := by
  rcases hw.decided_cases with hnil | ⟨i,H,h,a,-,hp,hlog⟩
  · rw [hnil]
    exact .nil 0
  · rw [hlog]
    exact hp.hosted.core.log.numbered.take _

theorem decided_payload (hw : World C U F B c) : ∀ e ∈ c.decided, Payload C U e.payload := by
  intro e he
  rcases hw.decided_cases with hnil | ⟨i,H,h,a,hH,-,hlog⟩
  · rw [hnil] at he
    cases he
  · rw [hlog] at he
    exact (hw.holds.hosts i H hH).node.log.all e (List.take_subset _ _ he)

/-- An event at a host, with what it sends. -/
theorem act (hw : World C U F B c) (hH : c.hosts.get? i=some H) (hen : c.enabled i e=true)
    (hprop : ∀ p, e.Proposes p → Payload C U p) (ha : H.act e=.ok (H',ms)) :
    ∃ c', World C U F B c' ∧ c.Goes i c' ∧ c'.hosts.get? i=some H' ∧ ms ⊆ c'.net ∧
      (e≠.apply → H'.done=H.done) := by
  have hact : c.act i e=.ok ⟨c.hosts.insert i H',c.net++ms⟩ := by
    unfold Cluster.act
    rw [hH]
    dsimp only
    rw [if_pos hen,ha]
    rfl
  obtain ⟨hw',hg⟩ := hw.goes hprop hact
  refine ⟨_,hw',hg,SortedMap.get?_insert_self ..,List.subset_append_right _ _,fun hne => ?_⟩
  obtain ⟨h,hr⟩ := hw.realm
  obtain ⟨a,hp⟩ := hr.hosts i H hH
  exact (Host.act_does ha).done_same hp hr.hist hr.governed
    (fun m hm => (hr.given hen hm).1.2.1) hne

/-- The first of the entries that are due is the next one that the cluster has decided. -/
theorem due_head (hw : World C U F B c) (hH : c.hosts.get? i=some H) {e : Entry} {es : List Entry}
    (hap : H.toApply=e::es) : c.decided[H.done]?=some e ∧ e.index=H.done+1 ∧
      Payload C U e.payload := by
  obtain ⟨h,hr⟩ := hw.realm
  obtain ⟨a,hp⟩ := hr.hosts i H hH
  obtain ⟨hat,-,hreach⟩ := hp.due_head hap
  rw [hp.done_eq]
  refine ⟨?_,?_,(hw.holds.hosts i H hH).due e (hap ▸ List.mem_cons_self)⟩
  · have hlog : H.committedLog[a]?=some e := by
      unfold Host.committedLog
      rw [List.getElem?_take_of_lt (by omega)]
      exact hat
    obtain ⟨es,hes⟩ := hr.isPrefix_decided hH
    rw [← hes,List.getElem?_append_left (List.getElem?_eq_some_iff.mp hlog).1]
    exact hlog
  · have hidx := hp.hosted.core.log.numbered a e hat
    rw [hidx]
    omega

end World

end

/-- A host is what a node is to its cluster, with the entries es still to be applied. -/
structure App.Mirrors (net : List Message) (i : Nat) (n : App) (es : List Entry) (H : Host) :
    Prop where
  id : n.id=i
  rn : H.rn=n.rn
  pending : H.pending=n.pending
  saved : H.saved=n.worked
  idle : n.pending=none → n.worked=false
  due : H.toApply=es
  done : H.done=n.state.commitIndex
  sent : ∀ rd, n.pending=some rd → ∀ m ∈ rd.messages, m ∈ net

/-- What the node has not applied of the Ready that it works on. -/
def App.due (n : App) : List Entry :=
  if n.worked then [] else (n.pending.map Ready.committedEntries).getD []

/-- The cluster can follow the node by events at host i. -/
def Shadowed [Raftpb] [Gob] (C : Codec) (U : Bytes → Bytes → Prop) (F : Founding)
    (B : Base Entry) (c : Cluster) (i : Nat) (n : App) : Prop :=
  ∃ c', World C U F B c' ∧ c.Goes i c' ∧ n.Follows c'.decided ∧
    (n.halted=none → ∃ H, c'.hosts.get? i=some H ∧ n.Mirrors c'.net i n.due H)

section

variable [Raftpb] [Gob] {C : Codec} {U : Bytes → Bytes → Prop} {F : Founding} {B : Base Entry}
  {c c' : Cluster} {i : Nat} {n n' : App} {es : List Entry} {H H' : Host}

omit [Raftpb] [Gob] in
theorem App.Mirrors.subset {net net' : List Message} (hm : n.Mirrors net i es H)
    (hs : net ⊆ net') : n.Mirrors net' i es H :=
  { hm with sent := fun rd hrd m h => hs (hm.sent rd hrd m h) }

namespace Shadowed

/-- A node that halts needs no host any more. -/
theorem halt (hw : World C U F B c) (hf : n.Follows c.decided) (x : Halt) :
    Shadowed C U F B c i { n with halted := some x } :=
  ⟨c,hw,.refl c i,⟨hf.fits,hf.kv,hf.told⟩,fun h => by cases h⟩

theorem stay (hw : World C U F B c) (hH : c.hosts.get? i=some H) (hf : n.Follows c.decided)
    (hm : n.Mirrors c.net i n.due H) : Shadowed C U F B c i n :=
  ⟨c,hw,.refl c i,hf,fun _ => ⟨H,hH,hm⟩⟩

theorem after (hg : c.Goes i c') (h : Shadowed C U F B c' i n) : Shadowed C U F B c i n := by
  obtain ⟨c'',hw,hg',hrest⟩ := h
  exact ⟨c'',hw,hg.trans hg',hrest⟩

/-- The node takes a step that its host takes too. -/
theorem setNode (hw : World C U F B c) (hH : c.hosts.get? i=some H) (hf : n.Follows c.decided)
    (hm : n.Mirrors c.net i n.due H) {res : Except Panic RawNode}
    (hres : ∀ rn, res=.ok rn → ∃ e, c.enabled i e=true ∧ (∀ p, e.Proposes p → Payload C U p) ∧
      e≠.apply ∧ H.act e=.ok ({ H with rn := rn },[])) :
    Shadowed C U F B c i (n.setNode res) := by
  cases res with
  | error p => exact halt hw hf _
  | ok rn =>
    obtain ⟨e,hen,hprop,hne,ha⟩ := hres rn rfl
    obtain ⟨c',hw',hg,hH',-,hdone⟩ := hw.act hH hen hprop ha
    refine ⟨c',hw',hg,(hf.grow hg.decided).same rfl rfl rfl,fun _ => ⟨_,hH',?_⟩⟩
    exact ⟨hm.id,rfl,hm.pending,hm.saved,hm.idle,hm.due,(hdone hne).trans hm.done,
      fun rd hrd m h => hg.net (hm.sent rd hrd m h)⟩

theorem updateTermState (h : Shadowed C U F B c i n) (term : Nat) :
    Shadowed C U F B c i (n.updateTermState term) := by
  unfold App.updateTermState
  split_ifs
  · obtain ⟨c',hw,hg,hf,hm⟩ := h
    refine ⟨c',hw,hg,hf.same rfl rfl ?_,fun hrun => ?_⟩
    · change App.commits (n.obs++[_])=_
      unfold App.commits
      rw [List.filterMap_append]
      exact List.append_nil _
    · obtain ⟨H,hH,hm⟩ := hm hrun
      exact ⟨H,hH,⟨hm.id,hm.rn,hm.pending,hm.saved,hm.idle,hm.due,hm.done,hm.sent⟩⟩
  · exact h

/-- The entries of a Ready are applied one by one. -/
theorem applyLoop (hw : World C U F B c) (hH : c.hosts.get? i=some H) (hf : n.Follows c.decided)
    (hm : n.Mirrors c.net i es H) (hrun : n.halted=none) (hworked : n.worked=true) :
    Shadowed C U F B c i (n.applyLoop es) := by
  induction es generalizing c n H with
  | nil =>
    change Shadowed C U F B c i n
    refine stay hw hH hf ?_
    rw [App.due,if_pos hworked]
    exact hm
  | cons e es ih =>
    obtain ⟨hat,hidx,hpay⟩ := hw.due_head hH hm.due
    rw [hm.done] at hat hidx
    have hf' := hf.applyEntry hat hidx
    have hsaved : H.saved=true := hm.saved.trans hworked
    -- the host applies the entry, and the node goes on with the others
    have hgo : ∀ rn, H.applyEntry e=.ok { H with rn := rn } → (n.applyEntry e).rn=rn →
        (n.applyEntry e).id=n.id → (n.applyEntry e).pending=n.pending →
        (n.applyEntry e).worked=n.worked → Shadowed C U F B c i
          (if (n.applyEntry e).halted.isSome then n.applyEntry e
            else (n.applyEntry e).applyLoop es) := by
      intro rn ha hrn hid hpend hwk
      have hact := Host.act_apply hm.due hsaved ha
      obtain ⟨c',hw',hg,hH',-,-⟩ := hw.act (e := .apply) hH rfl (fun _ h => False.elim h) hact
      have hdone : Host.done { H with rn := rn, toApply := es }=H.done+1 := by
        obtain ⟨h,hr⟩ := hw.realm
        obtain ⟨a,hp⟩ := hr.hosts i H hH
        exact Host.applyEntry_done hp hr.hist hr.governed hm.due ha
      have hm' : (n.applyEntry e).Mirrors c'.net i es { H with rn := rn, toApply := es } := by
        refine ⟨hid.trans hm.id,hrn.symm,hm.pending.trans hpend.symm,hm.saved.trans hwk.symm,?_,
          rfl,?_,fun rd hrd m h => hg.net (hm.sent rd (hpend ▸ hrd) m h)⟩
        · rw [hpend,hwk]
          exact hm.idle
        · rw [hdone,hm.done,App.applyEntry_commitIndex,hidx]
      refine after hg ?_
      split_ifs with hhalt
      · exact ⟨c',hw',.refl c' i,hf'.grow hg.decided,fun h => by simp [h] at hhalt⟩
      · exact ih hw' hH' (hf'.grow hg.decided) hm' (by simpa using hhalt) (hwk.trans hworked)
    change Shadowed C U F B c i (if (n.applyEntry e).halted.isSome then n.applyEntry e
      else (n.applyEntry e).applyLoop es)
    rcases hpay.kind with ⟨ht,hcc⟩ | ⟨ht,hcc⟩
    · have happ : H.applyEntry e=.ok H := by
        unfold Host.applyEntry
        rw [hcc]
        rfl
      have hshape : ∃ kv, n.applyEntry e={ n with
          obs := n.obs++[.commit e.index e.data]
          state := { n.state with commitIndex := e.index }
          kv := kv } := by
        unfold App.applyEntry App.publish
        rw [ht]
        dsimp only
        split_ifs
        · exact ⟨_,rfl⟩
        · unfold App.set
          split
          · exact ⟨_,rfl⟩
          · exact ⟨_,rfl⟩
      obtain ⟨kv,hshape⟩ := hshape
      refine hgo H.rn happ ?_ ?_ ?_ ?_
      all_goals rw [hshape]
      exact hm.rn.symm
    · have hconf : n.applyEntry e=App.applyConfChange { n with
          obs := n.obs++[.commit e.index e.data]
          state := { n.state with commitIndex := e.index } } (App.confChange e) := by
        unfold App.applyEntry App.publish
        rw [ht]
      cases hres : n.rn.applyConfChange (Raftpb.asV2 (App.confChange e)) with
      | error p =>
        have hhalt : (n.applyEntry e).halted=some (.panic p) := by
          rw [hconf]
          unfold App.applyConfChange
          dsimp only
          rw [hres]
        rw [hhalt]
        exact ⟨c,hw,.refl c i,hf',fun h => by cases hhalt.symm.trans h⟩
      | ok res =>
        obtain ⟨rn,cs⟩ := res
        have happ : H.applyEntry e=.ok { H with rn := rn } := by
          unfold Host.applyEntry
          rw [hcc,hm.rn]
          change (n.rn.applyConfChange _ >>= _)=_
          rw [hres]
          rfl
        obtain ⟨hrn,hid,hpend,hwk⟩ := App.applyConfChange_ok (n := { n with
          obs := n.obs++[.commit e.index e.data]
          state := { n.state with commitIndex := e.index } }) hres
        rw [← hconf] at hrn hid hpend hwk
        exact hgo rn happ hrn hid hpend hwk

theorem applyEntries (hw : World C U F B c) (hH : c.hosts.get? i=some H)
    (hf : n.Follows c.decided) (hm : n.Mirrors c.net i es H) (hrun : n.halted=none)
    (hworked : n.worked=true) : Shadowed C U F B c i (n.applyEntries es) := by
  cases es with
  | nil =>
    have hloop := applyLoop hw hH hf hm hrun hworked
    exact hloop
  | cons e es =>
    obtain ⟨-,hidx,-⟩ := hw.due_head hH hm.due
    rw [hm.done] at hidx
    rcases App.applyEntries_next es hidx with hbig | hloop
    · rw [hbig]
      exact halt hw hf _
    · rw [hloop]
      exact applyLoop hw hH hf hm hrun hworked

section

variable (hw : World C U F B c) (hH : c.hosts.get? i=some H) (hf : n.Follows c.decided)
  (hm : n.Mirrors c.net i n.due H)
include hw hH hf hm

theorem tick (fired : Bool) : Shadowed C U F B c i (n.take (.tick fired)) := by
  simp only [App.take]
  split
  · exact stay hw hH hf hm
  · exact halt hw hf _
  · rename_i rn _ hres
    refine updateTermState ?_ rn.raft.term
    cases fired with
    | false =>
      cases hres
      exact stay hw hH hf hm
    | true =>
      refine setNode hw hH hf hm (fun rn' (hr : Except.ok rn=.ok rn') => ⟨.tick,rfl,
        fun _ h => False.elim h,by decide,?_⟩)
      cases hr
      exact Host.act_tick (hm.rn ▸ hres)

theorem recv {m : Message} (hin : m ∈ c.net) (hto : m.toId=i) :
    Shadowed C U F B c i (n.take (.recv m)) := by
  change Shadowed C U F B c i (n.setNode _)
  unfold RawNode.step
  split_ifs
  · exact stay hw hH hf hm
  · refine setNode hw hH hf hm (fun rn hr => ⟨.recv m,?_,fun _ h => False.elim h,by simp,?_⟩)
    · simp [Cluster.enabled,hin,hto]
    · obtain ⟨res,hs,hr⟩ := map_eq_ok.mp hr
      exact hr ▸ Host.act_recv (hm.rn ▸ hs)
  · exact stay hw hH hf hm

theorem propose {e : Entry} (he : Payload C U e.payload) :
    Shadowed C U F B c i (n.take (.call (.propose [e]))) := by
  obtain ⟨h,hr⟩ := hw.realm
  obtain ⟨a,hp⟩ := hr.hosts i H hH
  have hid : H.rn.raft.id=n.id := hp.hosted.core.id.trans hm.id.symm
  change Shadowed C U F B c i (n.setNode _)
  refine setNode hw hH hf hm (fun rn hr => ⟨.call (.propose [e]),rfl,?_,by simp,?_⟩)
  · rintro p ⟨e',he',rfl⟩
    cases List.mem_singleton.mp he'
    exact he
  · obtain ⟨res,hs,hr⟩ := map_eq_ok.mp hr
    rw [← hid,← hm.rn] at hs
    exact hr ▸ Host.act_call hs

theorem work (hrun : n.halted=none) : Shadowed C U F B c i (n.take .work) := by
  simp only [App.take]
  split
  · rename_i rd hpend hwk
    have hf1 : App.Follows c.decided { n with worked := true } := hf.same rfl rfl rfl
    unfold App.work
    cases hsave : rd.save n.rn.raft.raftLog.storage with
    | error p => exact halt hw hf1 _
    | ok ms =>
      have hact := Host.act_save (hm.pending.trans hpend) (hm.saved.trans hwk)
        (hm.rn.symm ▸ hsave)
      obtain ⟨c1,hw1,hg,hH1,-,hdone⟩ := hw.act (e := .save) hH rfl (fun _ h => False.elim h) hact
      refine after hg (applyEntries hw1 hH1 ?_ ?_ hrun rfl)
      · exact (hf1.grow hg.decided).same rfl rfl (App.commits_sendMessages _ _)
      · have hdue := hm.due
        rw [App.due,hwk,hpend] at hdue
        refine ⟨hm.id,?_,hm.pending,rfl,fun h => ?_,hdue,(hdone (by decide)).trans hm.done,
          fun rd hrd m h => hg.net (hm.sent rd hrd m h)⟩
        · rw [hm.rn]
          rfl
        · cases hpend.symm.trans h
  · exact stay hw hH hf hm

theorem advance : Shadowed C U F B c i (n.take .advance) := by
  simp only [App.take]
  split
  · rename_i rd hpend hwk
    have hf1 : App.Follows c.decided { n with pending := none, worked := false } :=
      hf.same rfl rfl rfl
    cases hadv : n.rn.advance rd with
    | error p => exact halt hw hf1 _
    | ok rn =>
      have hdue := hm.due
      rw [App.due,hwk] at hdue
      have hact := Host.act_advance (hm.pending.trans hpend) (hm.saved.trans hwk) hdue
        (hm.rn.symm ▸ hadv)
      obtain ⟨c1,hw1,hg,hH1,-,hdone⟩ :=
        hw.act (e := .advance) hH rfl (fun _ h => False.elim h) hact
      refine ⟨c1,hw1,hg,(hf1.grow hg.decided).same rfl rfl rfl,fun _ => ⟨_,hH1,?_⟩⟩
      exact ⟨hm.id,rfl,rfl,rfl,fun _ => rfl,hdue,(hdone (by decide)).trans hm.done,
        fun rd hrd => by cases hrd⟩
  · exact stay hw hH hf hm

theorem receive (hrun : n.halted=none) : Shadowed C U F B c i n.receive := by
  unfold App.receive
  split_ifs with hbusy
  · exact stay hw hH hf hm
  have hpend : n.pending=none := by
    cases hp : n.pending with
    | none => rfl
    | some rd => simp [hp] at hbusy
  cases hrd : n.rn.readyWithoutAccept with
  | error p => exact halt hw hf _
  | ok rd =>
    have hact := Host.act_ready (hm.pending.trans hpend) (hm.rn.symm ▸ hrd)
    obtain ⟨c1,hw1,hg,hH1,hms,hdone⟩ :=
      hw.act (e := .ready) hH rfl (fun _ h => False.elim h) hact
    have htake : n.input (.ready rd)=App.updateTermState { n with
        rn := n.rn.acceptReady rd
        pending := some rd } rd.hardState.term := by
      rw [App.input_running hrun]
      simp only [App.take]
      split
      · rename_i h
        cases hpend.symm.trans h
      · rfl
    change Shadowed C U F B c i (n.input (.ready rd))
    rw [htake]
    refine updateTermState ?_ rd.hardState.term
    refine ⟨c1,hw1,hg,(hf.grow hg.decided).same rfl rfl rfl,fun _ => ⟨_,hH1,?_⟩⟩
    have hidle := hm.idle hpend
    refine ⟨hm.id,?_,rfl,hidle.symm,fun h => (by cases h),?_,(hdone (by decide)).trans hm.done,?_⟩
    · rw [hm.rn]
    · rw [App.due,if_neg (by simp [hidle])]
      rfl
    · intro rd' hrd' m hmem
      cases hrd'
      exact hms hmem

end

end Shadowed

end

end RaftTesting
