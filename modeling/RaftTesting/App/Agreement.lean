import RaftTesting.App.Replica

namespace RaftTesting

open Consensus

/-- A server whose node has its host in the cluster, and whose clients have put what waits to be
proposed. -/
structure Server.Sits [Raftpb] [Gob] (C : Codec) (U : Bytes → Bytes → Prop) (c : Cluster)
    (i : Nat) (a : Server) : Prop where
  follows : a.app.Follows c.decided
  mirrors : a.app.halted=none → ∃ H, c.hosts.get? i=some H ∧ a.app.Mirrors c.net i a.app.due H
  asked : ∀ data ∈ a.proposeC, ∃ key val, U key val ∧ C.encode key val=data

/-- The service is what its cluster says. -/
structure Service.Sim [Raftpb] [Gob] (C : Codec) (U : Bytes → Bytes → Prop) (F : Founding)
    (B : Base Entry) (s : Service) (c : Cluster) : Prop where
  world : World C U F B c
  net : s.net ⊆ c.net
  servers : ∀ i a, s.servers.get? i=some a → a.Sits C U c i

namespace App

section

variable [Raftpb] [Gob] (n : App)

omit [Raftpb] [Gob] in
theorem updateTermState_obs (term : Nat) : n.obs<+:(n.updateTermState term).obs := by
  unfold updateTermState publish
  split_ifs
  · exact List.prefix_append _ _
  · exact List.prefix_refl _

omit [Raftpb] [Gob] in
theorem setNode_obs (res : Except Panic RawNode) : (n.setNode res).obs=n.obs := by
  unfold setNode
  split <;> rfl

theorem applyLoop_obs (es : List Entry) : n.obs<+:(n.applyLoop es).obs := by
  induction es generalizing n with
  | nil => exact List.prefix_refl _
  | cons e es ih =>
    have hstep : n.obs<+:(n.applyEntry e).obs := by
      rw [applyEntry_obs]
      exact List.prefix_append _ _
    simp only [applyLoop]
    split_ifs
    · exact hstep
    · exact hstep.trans (ih _)

theorem applyEntries_obs (es : List Entry) : n.obs<+:(n.applyEntries es).obs := by
  unfold applyEntries
  split
  · exact List.prefix_refl _
  · dsimp only
    split_ifs
    · exact List.prefix_refl _
    · exact applyLoop_obs n _
    · exact applyLoop_obs n _

/-- Nothing that a node has reported is taken back. -/
theorem input_obs (x : Input) : n.obs<+:(n.input x).obs := by
  unfold input
  split_ifs
  · exact List.prefix_refl _
  cases x with
  | tick fired =>
    simp only [take]
    split
    · exact List.prefix_refl _
    · exact List.prefix_refl _
    · rename_i rn _ _
      exact updateTermState_obs { n with rn := rn } _
  | recv m => exact (setNode_obs n _).symm ▸ List.prefix_refl _
  | call c => exact (setNode_obs n _).symm ▸ List.prefix_refl _
  | ready rd =>
    simp only [take]
    split
    · exact List.prefix_refl _
    · exact updateTermState_obs { n with rn := n.rn.acceptReady rd, pending := some rd } _
  | work =>
    simp only [take]
    split
    · rename_i rd _ _
      unfold work
      split
      · exact List.prefix_refl _
      · rename_i ms _
        have hsent := applyEntries_obs
          (({ n with worked := true }.setStorage ms).sendMessages rd.messages) rd.committedEntries
        exact (List.prefix_append _ _).trans hsent
    · exact List.prefix_refl _
  | advance =>
    simp only [take]
    split
    · exact (setNode_obs _ _).symm ▸ List.prefix_refl _
    · exact List.prefix_refl _
  | get key => exact List.prefix_append _ _

end

end App

namespace Server

section

variable [Raftpb] [Gob] {C : Codec} {U : Bytes → Bytes → Prop} {F : Founding} {B : Base Entry}
  {c c' : Cluster} {i j : Nat} {a : Server}

theorem Sits.frame (hs : a.Sits C U c i) (hg : c.Goes j c') (hij : i≠j) : a.Sits C U c' i := by
  refine ⟨hs.follows.grow hg.decided,fun hrun => ?_,hs.asked⟩
  obtain ⟨H,hH,hm⟩ := hs.mirrors hrun
  exact ⟨H,(hg.others i hij).trans hH,hm.subset hg.net⟩

theorem Sits.shadowed (hw : World C U F B c) (hs : a.Sits C U c i) :
    Shadowed C U F B c i a.app :=
  ⟨c,hw,.refl c i,hs.follows,hs.mirrors⟩

/-- A node that is halted takes no input. -/
theorem Sits.input (hw : World C U F B c) (hs : a.Sits C U c i) {x : App.Input}
    (hx : ∀ H, c.hosts.get? i=some H → a.app.Mirrors c.net i a.app.due H → a.app.halted=none →
      Shadowed C U F B c i (a.app.take x)) : Shadowed C U F B c i (a.app.input x) := by
  cases hhalt : a.app.halted with
  | none =>
    obtain ⟨H,hH,hm⟩ := hs.mirrors hhalt
    rw [App.input_running hhalt]
    exact hx H hH hm hhalt
  | some x =>
    unfold App.input
    rw [hhalt]
    exact hs.shadowed hw

theorem serveHTTP_app (a : Server) (r : HttpRequest) : (a.serveHTTP C r).1.app=a.app := by
  unfold serveHTTP propose change
  repeat' split
  all_goals rfl

omit [Raftpb] [Gob] in
theorem change_proposeC (a : Server) (cc : ConfChange) : (a.change cc).1.proposeC=a.proposeC := by
  unfold change
  split_ifs <;> rfl

/-- A request to put a value is all that is proposed. -/
theorem serveHTTP_asked (a : Server) (r : HttpRequest) {data : Bytes}
    (h : data ∈ (a.serveHTTP C r).1.proposeC) : data ∈ a.proposeC ∨
      ∃ key val, r=.put key (some val) ∧ C.encode key val=data := by
  unfold serveHTTP at h
  split_ifs at h
  · exact .inl h
  cases r with
  | put key body =>
    cases body with
    | none => exact .inl h
    | some val =>
      dsimp only at h
      unfold propose at h
      split_ifs at h
      · rcases List.mem_append.mp h with h | h
        · exact .inl h
        · exact .inr ⟨key,val,rfl,(List.mem_singleton.mp h).symm⟩
      · exact .inl h
  | get key =>
    dsimp only at h
    split at h <;> exact .inl h
  | post nodeID body =>
    cases nodeID with
    | none => cases body <;> exact .inl h
    | some nodeID =>
      cases body with
      | none => exact .inl h
      | some url => exact .inl (change_proposeC a _ ▸ h)
  | delete nodeID =>
    cases nodeID with
    | none => exact .inl h
    | some nodeID => exact .inl (change_proposeC a _ ▸ h)
  | other => exact .inl h

theorem act_obs (a : Server) (e : Server.Event) : a.app.obs<+:(a.act C e).1.app.obs := by
  have hpoll : ∀ x (b : Server), b.app=a.app → a.app.obs<+:(a.poll x b).app.obs := by
    intro x b hb
    unfold poll
    split_ifs
    · exact List.prefix_refl _
    · exact a.app.input_obs _
  cases e with
  | request r => exact (serveHTTP_app (C := C) a r).symm ▸ List.prefix_refl _
  | pollPropose =>
    unfold act
    dsimp only
    split
    · exact List.prefix_refl _
    · exact hpoll _ _ rfl
  | pollConfChange =>
    unfold act
    dsimp only
    split
    · exact List.prefix_refl _
    · exact hpoll _ _ rfl
  | tick | recv | work | advance => exact a.app.input_obs _
  | ready =>
    change a.app.obs<+:a.app.receive.obs
    unfold App.receive
    split_ifs
    · exact List.prefix_refl _
    · split
      · exact List.prefix_refl _
      · exact a.app.input_obs _

/-- What raftloop sends, the host has sent. -/
theorem Sits.outgoing (hw : World C U F B c) (hs : a.Sits C U c i) : a.app.outgoing ⊆ c.net := by
  intro m hm
  unfold App.outgoing at hm
  split at hm
  · rename_i rd hrun hpend hwk
    split at hm
    · obtain ⟨m',hm',rfl⟩ := List.mem_map.mp hm
      obtain ⟨H,-,hmir⟩ := hs.mirrors hrun
      have hin := hmir.sent rd hpend m' hm'
      unfold App.stamped
      rw [if_neg (hw.not_snap hin)]
      exact hin
    · cases hm
  · cases hm

/-- Whatever happens at a server, its cluster goes along. -/
theorem Sits.act (hw : World C U F B c) (hs : a.Sits C U c i) {e : Server.Event}
    (hrecv : ∀ m, e=.recv m → m ∈ c.net ∧ m.toId=i)
    (hput : ∀ key val, e=.request (.put key (some val)) → U key val) :
    ∃ c', World C U F B c' ∧ c.Goes i c' ∧ (a.act C e).1.Sits C U c' i ∧
      (a.act C e).2 ⊆ c'.net := by
  have hnode : ∀ {n : App}, Shadowed C U F B c i n → ∃ c', World C U F B c' ∧ c.Goes i c' ∧
      Sits C U c' i { a with app := n } := by
    rintro n ⟨c',hw',hg,hf,hm⟩
    exact ⟨c',hw',hg,hf,hm,hs.asked⟩
  have hquiet : ∀ {n : App}, Shadowed C U F B c i n → ∃ c', World C U F B c' ∧ c.Goes i c' ∧
      Sits C U c' i { a with app := n } ∧ ([] : List Message) ⊆ c'.net := by
    intro n h
    obtain ⟨c',hw',hg,hs'⟩ := hnode h
    exact ⟨c',hw',hg,hs',List.nil_subset _⟩
  have hstay := hquiet (hs.shadowed hw)
  cases e with
  | request r =>
    refine ⟨c,hw,.refl c i,⟨?_,?_,fun data hdata => ?_⟩,List.nil_subset _⟩
    · change (a.serveHTTP C r).1.app.Follows c.decided
      rw [serveHTTP_app]
      exact hs.follows
    · simp only [Server.act,serveHTTP_app]
      exact hs.mirrors
    · rcases serveHTTP_asked a r hdata with h | ⟨key,val,rfl,h⟩
      · exact hs.asked data h
      · exact ⟨key,val,hput key val rfl,h⟩
  | pollPropose =>
    unfold Server.act
    dsimp only
    split
    · exact hstay
    · rename_i data rest hq
      unfold poll
      split_ifs
      · exact hstay
      · obtain ⟨key,val,hU,henc⟩ := hs.asked data (hq ▸ List.mem_cons_self)
        have hpay : Payload C U ({ (default : Entry) with data := data } : Entry).payload :=
          henc ▸ .put hU
        obtain ⟨c',hw',hg,hs'⟩ := hnode (hs.input hw (x := .call (.propose [_]))
          (fun H hH hm _ => .propose hw hH hs.follows hm hpay))
        exact ⟨c',hw',hg,⟨hs'.follows,hs'.mirrors,
          fun d hd => hs.asked d (hq ▸ List.mem_cons_of_mem _ hd)⟩,List.nil_subset _⟩
  | pollConfChange =>
    unfold Server.act
    dsimp only
    split
    · exact hstay
    · rename_i cc rest hq
      unfold poll
      split_ifs
      · exact hstay
      · have hpay : Payload C U ({ (default : Entry) with
            type := .entryConfChange
            data := C.marshal cc } : Entry).payload := .change cc
        obtain ⟨c',hw',hg,hs'⟩ := hnode (hs.input hw (x := .call (.propose [_]))
          (fun H hH hm _ => .propose hw hH hs.follows hm hpay))
        exact ⟨c',hw',hg,⟨hs'.follows,hs'.mirrors,hs'.asked⟩,List.nil_subset _⟩
  | tick fired =>
    exact hquiet (hs.input hw (fun H hH hm _ => .tick hw hH hs.follows hm fired))
  | recv m =>
    obtain ⟨hin,hto⟩ := hrecv m rfl
    exact hquiet (hs.input hw (fun H hH hm _ => .recv hw hH hs.follows hm hin hto))
  | ready =>
    refine hquiet ?_
    cases hhalt : a.app.halted with
    | none =>
      obtain ⟨H,hH,hm⟩ := hs.mirrors hhalt
      exact .receive hw hH hs.follows hm hhalt
    | some x =>
      unfold App.receive
      rw [if_pos (by simp [hhalt])]
      exact hs.shadowed hw
  | work =>
    obtain ⟨c',hw',hg,hs'⟩ :=
      hnode (hs.input hw (fun H hH hm hrun => .work hw hH hs.follows hm hrun))
    exact ⟨c',hw',hg,hs',List.Subset.trans (hs.outgoing hw) hg.net⟩
  | advance => exact hquiet (hs.input hw (fun H hH hm _ => .advance hw hH hs.follows hm))

end

end Server

namespace Service

section

variable [Raftpb] [Gob] {C : Codec} {U : Bytes → Bytes → Prop} {F : Founding} {B : Base Entry}
  {s : Service} {c : Cluster} {i : Nat} {e : Server.Event}

theorem Sim.act (hs : s.Sim C U F B c)
    (hput : ∀ key val, e=.request (.put key (some val)) → U key val) :
    ∃ c', (s.act C i e).Sim C U F B c' ∧ c.decided<+:c'.decided := by
  unfold Service.act
  split
  · exact ⟨c,hs,List.prefix_refl _⟩
  rename_i a ha
  split_ifs with hen
  swap
  · exact ⟨c,hs,List.prefix_refl _⟩
  have hrecv : ∀ m, e=.recv m → m ∈ c.net ∧ m.toId=i := by
    rintro m rfl
    simp only [enabled,Bool.and_eq_true,decide_eq_true_eq] at hen
    exact ⟨hs.net hen.1,hen.2⟩
  obtain ⟨c',hw,hg,hsits,hms⟩ := (hs.servers i a ha).act hs.world hrecv hput
  refine ⟨c',⟨hw,?_,fun j b hb => ?_⟩,hg.decided⟩
  · exact List.append_subset.mpr ⟨List.Subset.trans hs.net hg.net,hms⟩
  · rw [SortedMap.get?_insert] at hb
    split_ifs at hb with hji
    · cases hb
      exact hji ▸ hsits
    · exact (hs.servers j b hb).frame hg hji

/-- Along a run there is one log that all servers follow at all times. -/
theorem Sim.run (es : List (Nat × Server.Event)) (hs : s.Sim C U F B c)
    (hput : ∀ x ∈ es, ∀ key val, x.2=.request (.put key (some val)) → U key val) :
    ∃ c', (s.run C es).Sim C U F B c' ∧ c.decided<+:c'.decided ∧
      ∀ before, before<+:es → ∀ i a, (s.run C before).servers.get? i=some a →
        a.app.Follows c'.decided := by
  induction es generalizing s c with
  | nil =>
    refine ⟨c,hs,List.prefix_refl _,fun before hb i a ha => ?_⟩
    cases List.prefix_nil.mp hb
    exact (hs.servers i a ha).follows
  | cons e es ih =>
    obtain ⟨c1,hs1,hl1⟩ := hs.act (i := e.1) (hput e List.mem_cons_self)
    obtain ⟨c2,hs2,hl2,hall⟩ := ih hs1 (fun x hx => hput x (List.mem_cons_of_mem _ hx))
    refine ⟨c2,hs2,hl1.trans hl2,fun before hb i a ha => ?_⟩
    cases before with
    | nil => exact (hs.servers i a ha).follows.grow (hl1.trans hl2)
    | cons x before =>
      obtain ⟨rfl,hbefore⟩ := List.cons_prefix_cons.mp hb
      exact hall before hbefore i a ha

end

end Service

section

variable [Raftpb] [Gob] {C : Codec} {ps : List Peer}

omit [Gob] in
/-- Bootstrap does not fail on a storage that was just reset. -/
theorem App.start_host {marshal : ConfChange → Bytes} {id : Nat} {draws : List Nat} {n : App}
    (h : App.start marshal ps id draws=.ok n) : ∃ rn,
      Cluster.startHost marshal ps (App.config id) draws=some { rn := rn } ∧
      n={ id := id, rn := rn } := by
  obtain ⟨rn,hs,h⟩ := bind_eq_ok.mp h
  cases h
  unfold App.startNode at hs
  split_ifs at hs with hne
  obtain ⟨rn1,h1,hs⟩ := bind_eq_ok.mp hs
  obtain ⟨res,hb,hs⟩ := bind_eq_ok.mp hs
  unfold Cluster.startHost
  rw [h1]
  dsimp only
  rw [hb]
  cases res with
  | ok rn2 =>
    cases hs
    exact ⟨rn,rfl,rfl⟩
  | error err =>
    obtain ⟨r,hr,h1⟩ := bind_eq_ok.mp h1
    cases h1
    have hstore := (Raft.newRaft_spec hr).2.2.2.2.1
    unfold RawNode.bootstrap at hb
    rw [if_neg hne] at hb
    split_ifs at hb with hlast
    · exact absurd (congrArg MemoryStorage.lastIndex hstore) hlast
    · obtain ⟨rn2,-,hb⟩ := bind_eq_ok.mp hb
      cases hb

namespace Service

theorem startServers_spec {peers : List Peer} {draws : Nat → List Nat} {servers : SortedMap Server}
    {i : Nat} {a : Server} (h : (ps.foldl (startServer C peers draws) servers).get? i=some a) :
    servers.get? i=some a ∨ (∃ p ∈ ps, p.id=i) ∧
      ∃ n, App.start C.marshal peers i (draws i)=.ok n ∧ a={ app := n } := by
  induction ps generalizing servers with
  | nil => exact .inl h
  | cons p ps ih =>
    rcases ih h with h | ⟨⟨q,hq,hqi⟩,hn⟩
    · unfold startServer at h
      split at h
      · rename_i n hn
        rw [SortedMap.get?_insert] at h
        split_ifs at h with hpi
        · cases h
          exact .inr ⟨⟨p,List.mem_cons_self,hpi.symm⟩,n,hpi ▸ hn,rfl⟩
        · exact .inl h
      · exact .inl h
    · exact .inr ⟨⟨q,List.mem_cons_of_mem _ hq,hqi⟩,hn⟩

/-- The servers start as the hosts of a cluster. -/
theorem start_sim (C : Codec) (U : Bytes → Bytes → Prop) (urls : List Bytes)
    (draws : Nat → List Nat) : ∃ F B c, (start C urls draws).Sim C U F B c := by
  obtain ⟨F,hF,hf⟩ : ∃ F, F.cfg.autoLeave=false ∧
      (Cluster.start C.marshal (peers urls) App.config draws).Founded F
        (RawNode.bootstrapBase C.marshal (peers urls)) :=
    Cluster.start_founds (fun _ => rfl) (fun _ => rfl) (fun _ => rfl)
  refine ⟨F,_,_,⟨hF,⟨_,hf.realm⟩,fun i H hH => ?_,fun m hm => ?_⟩,List.nil_subset _,
    fun i a ha => ?_⟩
  · refine Cluster.startHost_holds .blank (fun e he => ?_) rfl (Cluster.start_hosts hH)
    obtain ⟨k,hk,rfl⟩ := List.mem_mapIdx.mp he
    exact .change _
  · cases hm
  · rcases startServers_spec ha with ha | ⟨hi,n,hn,rfl⟩
    · cases ha
    obtain ⟨rn,hrn,rfl⟩ := App.start_host hn
    have hboots := Cluster.startHost_boots rfl rfl hrn
    refine ⟨⟨Nat.zero_le _,rfl,rfl⟩,fun _ => ⟨_,Cluster.startPeers_get hrn (.inl hi),?_⟩,?_⟩
    · exact ⟨rfl,rfl,rfl,rfl,fun _ => rfl,rfl,hboots.applied,fun rd hrd => by cases hrd⟩
    · exact fun data hdata => by cases hdata

/-- What the servers have replicated says what their stores hold. -/
theorem replay_put {U : Bytes → Bytes → Prop} {es : List Entry}
    (hes : ∀ e ∈ es, Payload C U e.payload) {key val : Bytes}
    (h : App.replay es key=some val) : U key val := by
  induction es using List.reverseRecOn generalizing key val with
  | nil => cases h
  | append_singleton es e ih =>
    have ih : ∀ {key val}, App.replay es key=some val → U key val :=
      ih (fun e he => hes e (List.mem_append_left _ he))
    have hpay := hes e (by simp)
    unfold App.replay at h
    rw [List.foldl_append] at h
    change App.store (App.replay es) e key=some val at h
    obtain ⟨term,index,type,data⟩ := e
    change Payload C U (type,data) at hpay
    unfold App.store at h
    cases hpay with
    | blank => exact ih h
    | put hU =>
      split_ifs at h with hput
      · dsimp only at h
        rw [C.decode_encode] at h
        change Function.update _ _ _ key=_ at h
        rw [Function.update_apply] at h
        split_ifs at h with hk
        · cases h
          exact hk ▸ hU
        · exact ih h
      · exact ih h
    | change cc => exact ih h

theorem run_append (s : Service) (es es' : List (Nat × Server.Event)) :
    s.run C (es++es')=(s.run C es).run C es' := List.foldl_append

/-- Nothing that a server has reported is taken back. -/
theorem run_obs {s : Service} (es : List (Nat × Server.Event)) {i : Nat} {a : Server}
    (ha : s.servers.get? i=some a) :
    ∃ b, (s.run C es).servers.get? i=some b ∧ a.app.obs<+:b.app.obs := by
  induction es generalizing s a with
  | nil => exact ⟨a,ha,List.prefix_refl _⟩
  | cons e es ih =>
    have hstep : ∃ b, (s.act C e.1 e.2).servers.get? i=some b ∧ a.app.obs<+:b.app.obs := by
      unfold act
      split
      · exact ⟨a,ha,List.prefix_refl _⟩
      · rename_i a' ha'
        split_ifs
        · by_cases hi : i=e.1
          · subst hi
            cases ha.symm.trans ha'
            exact ⟨_,SortedMap.get?_insert_self ..,a.act_obs e.2⟩
          · exact ⟨a,(SortedMap.get?_insert_ne _ _ hi).trans ha,List.prefix_refl _⟩
        · exact ⟨a,ha,List.prefix_refl _⟩
    obtain ⟨b,hb,hab⟩ := hstep
    obtain ⟨d,hd,hbd⟩ := ih hb
    exact ⟨d,hd,hab.trans hbd⟩

/-- The servers replicate one store. Whatever happens in a run, there is one log such that at
any time each server has applied a first part of it, its store is what that part leads to and
its Commit events tell of that part; and no server goes back. -/
theorem run_replicates (C : Codec) (urls : List Bytes) (draws : Nat → List Nat)
    (es : List (Nat × Server.Event)) : ∃ log, Numbered 0 log ∧
      ∀ before, before<+:es → ∀ i a,
        ((start C urls draws).run C before).servers.get? i=some a → a.app.Follows log ∧
        ∀ after, before++after<+:es → ∃ b,
          ((start C urls draws).run C (before++after)).servers.get? i=some b ∧
          a.app.state.commitIndex≤b.app.state.commitIndex := by
  obtain ⟨F,B,c,hsim⟩ := start_sim C (fun _ _ => True) urls draws
  obtain ⟨c',hsim',-,hall⟩ := hsim.run es (fun _ _ _ _ _ => trivial)
  refine ⟨c'.decided,hsim'.world.numbered,fun before hbefore i a ha => ?_⟩
  have hfollows := hall before hbefore i a ha
  refine ⟨hfollows,fun after hafter => ?_⟩
  obtain ⟨b,hb,hobs⟩ := run_obs (C := C) after ha
  rw [← run_append] at hb
  refine ⟨b,hb,?_⟩
  rw [← hfollows.reported,← (hall _ hafter i b hb).reported]
  exact (hobs.filterMap _).length_le

end Service

end

section

local instance storedWire : Raftpb := Wire.small

/-- A pair of keys and values for small examples: a one before each byte of the key, a zero
behind it. -/
def Wire.frame (key val : Bytes) : Bytes := key.flatMap (fun b => [1,b])++0::val

def Wire.unframe : Bytes → Option (Bytes × Bytes)
  | 0::val => some ([],val)
  | 1::b::rest => (unframe rest).map (fun p => (b::p.1,p.2))
  | _ => none

theorem Wire.unframe_frame (key val : Bytes) : unframe (frame key val)=some (key,val) := by
  unfold frame
  induction key with
  | nil => rfl
  | cons b key ih =>
    simp only [List.flatMap_cons,List.cons_append,List.nil_append,unframe,ih,Option.map_some]

local instance storedGob : Gob := ⟨Wire.unframe⟩

def Wire.codec : Codec := ⟨frame,marshalConfChange,unframe_frame,fun _ => rfl⟩

namespace Service

/-- raftloop takes a Ready and does what it asks for. -/
def handle (i : Nat) : List (Nat × Server.Event) := [(i,.ready),(i,.work),(i,.advance)]

/-- Node 1 times out and is elected in term 2. A client puts a value, which both nodes store. -/
def storing : List (Nat × Server.Event) :=
  handle 1++List.replicate 10 (1,.tick true)++handle 1++handle 2++
  [(2,.recv { type := .msgVote, toId := 2, fromId := 1, term := 2, index := 2, logTerm := 1 })]++
  handle 2++[(1,.recv { type := .msgVoteResp, toId := 1, fromId := 2, term := 2 }),
    (1,.request (.put [1] (some [7]))),(1,.pollPropose)]++handle 1++
  [(2,.recv (Cluster.append 1 2 [{ (default : Entry) with term := 2, index := 3 }] 2))]++
  handle 2++[(1,.recv (Cluster.appended 3))]++handle 1++
  [(2,.recv (Cluster.append 2 3
    [{ (default : Entry) with term := 2, index := 4, data := Wire.frame [1] [7] }] 3))]++
  handle 2++[(1,.recv (Cluster.appended 4))]++handle 1++
  [(2,.recv (Cluster.append 2 4 [] 4))]++handle 2

def stored : Service := (start Wire.codec [[],[]] (fun _ => [])).run Wire.codec storing

def firstStored : Server := (stored.servers.get? 1).get (by decide +kernel)

def secondStored : Server := (stored.servers.get? 2).get (by decide +kernel)

theorem firstStored_eq : stored.servers.get? 1=some firstStored := (Option.some_get _).symm

theorem secondStored_eq : stored.servers.get? 2=some secondStored := (Option.some_get _).symm

theorem run_replicates_stored : firstStored.app.state.commitIndex=4 ∧
    secondStored.app.state.commitIndex=4 ∧
    ∃ log, firstStored.app.Follows log ∧ secondStored.app.Follows log := by
  obtain ⟨log,-,h⟩ := run_replicates Wire.codec [[],[]] (fun _ => []) storing
  exact ⟨by decide +kernel,by decide +kernel,log,
    (h storing (List.prefix_refl _) 1 firstStored firstStored_eq).1,
    (h storing (List.prefix_refl _) 2 secondStored secondStored_eq).1⟩

end Service

end

section

variable [Raftpb] [Gob]

namespace Service

/-- A server answers with no value that no client has put. -/
theorem run_reads {C : Codec} {urls : List Bytes} {draws : Nat → List Nat}
    {es : List (Nat × Server.Event)} {i : Nat} {a : Server} {key val : Bytes}
    (ha : ((start C urls draws).run C es).servers.get? i=some a)
    (hget : (a.serveHTTP C (.get key)).2=some (.ok val)) :
    ∃ j, (j,.request (.put key (some val))) ∈ es := by
  let U := fun key val => ∃ j, (j,Server.Event.request (.put key (some val))) ∈ es
  obtain ⟨F,B,c,hsim⟩ := start_sim C U urls draws
  obtain ⟨c',hsim',-,hall⟩ := hsim.run es (by
    rintro ⟨j,x⟩ hx key val rfl
    exact ⟨j,hx⟩)
  have hkv : a.app.kv key=some val := by
    unfold Server.serveHTTP at hget
    split_ifs at hget
    dsimp only at hget
    split at hget
    · rename_i val' hval
      cases hget
      exact hval
    · cases hget
  have hfollows := hall es (List.prefix_refl _) i a ha
  rw [hfollows.kv] at hkv
  refine replay_put (C := C) (U := U) (fun e he => ?_) hkv
  exact hsim'.world.decided_payload e (List.take_subset _ _ he)

end Service

end

section

local instance readWire : Raftpb := Wire.small

local instance readGob : Gob := ⟨Wire.unframe⟩

theorem Service.run_reads_stored :
    (secondStored.serveHTTP Wire.codec (.get [1])).2=some (.ok [7]) ∧
      ∃ j, (j,.request (.put [1] (some [7]))) ∈ storing := by
  have hget : (secondStored.serveHTTP Wire.codec (.get [1])).2=some (.ok [7]) := by
    decide +kernel
  exact ⟨hget,run_reads secondStored_eq hget⟩

end

end RaftTesting
