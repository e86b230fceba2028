import RaftTesting.Cluster.Ledger
import RaftTesting.Node.Touch

namespace RaftTesting

open Consensus

/-- Only the leader of its term has sent the message. -/
def Message.Led (h : Hist Entry) (m : Message) : Prop :=
  m.type.leads=true → h.lead m.term=some m.fromId

theorem Message.Led.grown {h h' : Hist Entry} {i : Nat} {m : Message} (hm : m.Led h)
    (g : h.Grown i h') : m.Led h' := fun ht => g.lead_some (hm ht)

namespace Core

/-- The node speaks as a leader only in the terms it leads. -/
def Speaks (h : Hist Entry) (c : Core) : Prop := ∀ m ∈ c.msgs, m.Led h

theorem answerRead_speaks {c c' : Core} {req : Message} {index : Nat} {h : Hist Entry}
    (hc : c.Speaks h) (ha : c.answerRead req index=.ok c') : c'.Speaks h := by
  unfold answerRead at ha
  split at ha
  · obtain ⟨ctx,-,ha⟩ := bind_eq_ok.mp ha
    cases ha
    exact hc
  · cases ha
    intro m hm
    rcases List.mem_append.mp hm with hm | hm
    · exact hc m hm
    · cases List.mem_singleton.mp hm
      exact fun ht => by cases ht

theorem Speaks.say {c : Core} {h : Hist Entry} (hc : c.Speaks h) {m : Message} (hm : m.Led h) :
    (c.say m).Speaks h := by
  intro n hn
  rcases List.mem_append.mp hn with hn | hn
  · exact hc n hn
  · cases List.mem_singleton.mp hn
    exact hm

section

variable [Raftpb] {S : Message → Prop} {c c' : Core} {h : Hist Entry}

omit [Raftpb] in
theorem Read.speaks (hc : c.Speaks h) (hr : Read S c c') : c'.Speaks h := by
  cases hr with
  | park | unpark | learn | register | ack => exact hc
  | lease _ _ ha => exact answerRead_speaks hc ha
  | singleton _ _ _ _ ha => exact answerRead_speaks hc ha
  | release _ _ _ _ _ _ ha =>
    exact foldlM_rel (R := fun a b : Core => a.Speaks h → b.Speaks h) (fun _ h => h)
      (fun _ _ _ hab hbc ha => hbc (hab ha)) (fun _ _ _ _ h hc => answerRead_speaks hc h) ha hc

/-- What node i says as a leader it says in a term that it leads. -/
theorem HostMove.speaks (hlead : c.state=.stateLeader → h.lead c.term=some c.id)
    (hc : c.Speaks h) (hm : HostMove S c c') : c'.Speaks h := by
  have hother : ∀ {m : Message}, m.type.leads=false → m.Led h :=
    fun ht ht' => absurd ht' (by rw [ht]; exact Bool.false_ne_true)
  cases hm with
  | move hm =>
    cases hm with
    | send hs =>
      cases hs with
      | app hl => exact Speaks.say hc (fun _ => hlead hl)
      | snap hl => exact Speaks.say hc (fun _ => hlead hl)
      | heartbeat hl => exact Speaks.say hc (fun _ => hlead hl)
      | @plain m hp _ =>
        refine Speaks.say hc (hother ?_)
        unfold Plain at hp
        cases ht : m.type <;> rw [ht] at hp <;> first | rfl | exact hp.elim
      | track | back => exact hc
      | read hr => exact hr.speaks hc
    | follow | preStand | stand | poll | elect | append | pend | commit | ack | forward => exact hc
    | vote | accept | stale | beat | skip | restore => exact Speaks.say hc (hother rfl)
  | applied | leave => exact hc

end

end Core

section

variable [Raftpb] {F : Founding} {B : Base Entry} {h h' : Hist Entry} {i a : Nat} {c c' : Core}

theorem Core.HostMove.speaks_carried {S : Message → Prop} (ho : Ordered F B h i a c)
    (p : Carried F B i a h c h' c') (hm : HostMove S c c') (hc : c.Speaks h) : c'.Speaks h' := by
  have hs : c'.Speaks h := hm.speaks (fun hl => by
    rw [ho.core.id]
    exact (ho.core.leader hl).1) hc
  exact fun m hm => (hs m hm).grown p.grown

theorem upheld_speaks : Upheld F B i (fun h c => c.Speaks h) where
  move := fun ho p hm hc => hm.speaks_carried ho p hc
  setLog := fun hc => hc
  install := fun hc => hc
  flush := fun _ _ hm => absurd hm List.not_mem_nil

end

/-- Whoever is known as the leader of a term is on record as its leader. -/
structure Host.Knows (h : Hist Entry) (H : Host) : Prop where
  aware : H.rn.raft.Aware
  lead : H.rn.raft.lead≠noNode → h.lead H.rn.raft.term=some H.rn.raft.lead
  speaks : H.rn.raft.core.Speaks h

structure Cluster.Knows (h : Hist Entry) (c : Cluster) : Prop where
  hosts : ∀ i H, c.hosts.get? i=some H → H.Knows h
  net : ∀ m ∈ c.net, m.Led h

section

variable [Raftpb] {F : Founding} {B : Base Entry} {h : Hist Entry} {c c' : Cluster} {i : Nat}
  {e : Event}

omit [Raftpb] in
theorem Cluster.Knows.given (hc : c.Knows h) (hen : c.enabled i e=true) {id : Nat} {m : Message}
    (hm : e.message id=some m) : m.Led h := by
  cases e with
  | recv n =>
    cases hm
    simp only [Cluster.enabled,Bool.and_eq_true,decide_eq_true_eq] at hen
    exact hc.net m hen.1
  | call n =>
    cases hm
    cases n <;> exact fun ht => by cases ht
  | tick | ready | save | apply | advance => cases hm

theorem Realm.knows (hr : Realm F B h c) (hc : c.Knows h) (ha : c.act i e=.ok c') :
    ∃ h', h.Grown i h' ∧ Realm F B h' c' ∧ c'.Knows h' := by
  obtain ⟨h',g,hr',hev,hspeaks⟩ := hr.act (P := fun h c => c.Speaks h) (fun _ => upheld_speaks)
    (fun H hH => (hc.hosts i H hH).speaks) (by
    intro H a m r err hH hp hen hm hstep
    have hgiven := hr.given hen hm
    have hmoves := Raft.step_moves (S := (·=m)) (fun _ => rfl) hgiven.1.2.1 hstep
    exact Core.chain_carried (S := (·=m)) (fun hm => .move hm) (fun n hn => hn ▸ hgiven)
      (fun _ ho p hm hc => Core.HostMove.speaks_carried ho p (.move hm) hc)
      (hp.ordered hr.hist hr.governed) (hc.hosts i H hH).speaks hmoves
      (hmoves.fixed.2.trans_le hp.placed.applied)) ha
  refine ⟨h',g,hr',fun j J hJ => ?_,fun m hm => ?_⟩
  · rcases Cluster.act_cases ha with rfl | ⟨H,H',ms,hH,hen,hact,rfl⟩
    · have hk := hc.hosts j J hJ
      exact ⟨hk.aware,fun hl => g.lead_some (hk.lead hl),fun m hm => (hk.speaks m hm).grown g⟩
    · have hJ' := hJ
      rw [SortedMap.get?_insert] at hJ
      split_ifs at hJ with hji
      · cases hJ
        subst hji
        have hk := hc.hosts j H hH
        have ht := (Host.act_does hact).effect.touches (fun m hm => (hr.given hen hm).1.2.1)
        obtain ⟨haware,hnamed⟩ := ht.aware hk.aware
        refine ⟨haware,fun hl => ?_,hspeaks _ hJ'⟩
        rcases hnamed with (hnone | ⟨m,hm,hleads,hterm,hfrom⟩) | hlead | ⟨hsame,hterm⟩
        · exact absurd hnone hl
        · rw [← hterm,← hfrom]
          exact g.lead_some (hc.given hen hm hleads)
        · obtain ⟨b,hp⟩ := hr'.hosts j _ hJ'
          have hid : J.rn.raft.id=j := hp.hosted.core.id
          rw [haware.leader hlead,hid]
          exact (hp.hosted.core.leader hlead).1
        · rw [hsame] at hl ⊢
          rw [hterm]
          exact g.lead_some (hk.lead hl)
      · have hk := hc.hosts j J hJ
        exact ⟨hk.aware,fun hl => g.lead_some (hk.lead hl),fun m hm => (hk.speaks m hm).grown g⟩
  · rcases hev.sent m hm with hm | ⟨H,hH,hm⟩
    · exact (hc.net m hm).grown g
    · exact ((hc.hosts i H hH).speaks m hm).grown g

end

namespace Cluster

section

variable [Raftpb] {F : Founding} {B : Base Entry}
  {allowed allowed' : Cluster → Nat → Event → Bool} {c0 c1 c2 : Cluster}
  {before after : List (Nat × Event)}

theorem run_knows {h : Hist Entry} {es : List (Nat × Event)} (hr : Realm F B h c1)
    (hc : c1.Knows h) (he : c1.run allowed es=some c2) :
    ∃ h', h.Later h' ∧ Realm F B h' c2 ∧ c2.Knows h' := by
  induction es generalizing c1 h with
  | nil =>
    cases he
    exact ⟨h,.refl h,hr,hc⟩
  | cons e es ih =>
    obtain ⟨i,e⟩ := e
    simp only [run] at he
    split_ifs at he
    split at he
    · cases he
    · rename_i c hact
      obtain ⟨h1,g,hr1,hc1⟩ := hr.knows hc hact
      obtain ⟨h2,l,hr2,hc2⟩ := ih hr1 hc1 he
      exact ⟨h2,g.andLater l,hr2,hc2⟩

/-- At the start no host takes another one for the leader. -/
theorem Founded.knows (hf : c0.Founded F B)
    (hlead : ∀ i H, c0.hosts.get? i=some H → H.rn.raft.lead=noNode) :
    c0.Knows (Hist.init B) where
  hosts := by
    intro i H hH
    have hfresh := (hf.hosts i H hH).fresh
    refine ⟨⟨fun hs => ?_,fun _ => hlead i H hH⟩,fun hl => absurd (hlead i H hH) hl,fun m hm => ?_⟩
    · cases hfresh.state.symm.trans hs
    · change m ∈ H.rn.raft.msgs at hm
      rw [hfresh.msgs] at hm
      cases hm
  net := by
    intro m hm
    rw [hf.net] at hm
    cases hm

/-- Two hosts that know of a leader in the same term, not necessarily at the same moment, know
of the same one; and a leader knows of itself. -/
theorem leads_agree (hf : c0.Founded F B)
    (hlead : ∀ i H, c0.hosts.get? i=some H → H.rn.raft.lead=noNode)
    (h1 : c0.run allowed before=some c1) (h2 : c1.run allowed' after=some c2) {i j : Nat}
    {I J : Host} (hI : c1.hosts.get? i=some I) (hJ : c2.hosts.get? j=some J)
    (hterm : I.rn.raft.term=J.rn.raft.term) (hleadI : I.rn.raft.lead≠noNode)
    (hleadJ : J.rn.raft.lead≠noNode) : I.rn.raft.lead=J.rn.raft.lead ∧
      (I.rn.raft.state=.stateLeader → J.rn.raft.lead=i) ∧
      (J.rn.raft.state=.stateLeader → I.rn.raft.lead=j) := by
  obtain ⟨h1,-,hr1,hc1⟩ := run_knows hf.realm (hf.knows hlead) h1
  obtain ⟨h2,hl,hr2,hc2⟩ := run_knows hr1 hc1 h2
  have hkI := hc1.hosts i I hI
  have hkJ := hc2.hosts j J hJ
  have hledI := hl.lead _ _ (hkI.lead hleadI)
  rw [hterm] at hledI
  have hsame := Option.some.inj (hledI.symm.trans (hkJ.lead hleadJ))
  obtain ⟨a,hpI⟩ := hr1.hosts i I hI
  obtain ⟨b,hpJ⟩ := hr2.hosts j J hJ
  refine ⟨hsame,fun hs => ?_,fun hs => ?_⟩
  · rw [← hsame,hkI.aware.leader hs]
    exact hpI.hosted.core.id
  · rw [hsame,hkJ.aware.leader hs]
    exact hpJ.hosted.core.id

end

section

attribute [local instance] ledgerWire

def secondParted : Host := (parted.hosts.get? 2).get (by decide +kernel)

theorem secondParted_eq : parted.hosts.get? 2=some secondParted := (Option.some_get _).symm

theorem two_leaderless : ∀ i H, two.hosts.get? i=some H → H.rn.raft.lead=noNode := by
  intro i H hH
  have hall : two.hosts.pairs.all (fun p => p.2.rn.raft.lead=noNode)=true := by decide +kernel
  exact of_decide_eq_true (List.all_eq_true.mp hall (i,H) (SortedMap.mem_pairs hH))

theorem leads_agree_removal : secondParted.rn.raft.state=.stateFollower ∧
    firstLeft.rn.raft.state=.stateLeader ∧ secondParted.rn.raft.lead=firstLeft.rn.raft.lead ∧
    secondParted.rn.raft.lead=1 := by
  have hl : firstLeft.rn.raft.state=.stateLeader := by decide +kernel
  obtain ⟨hsame,-,hfirst⟩ := leads_agree two_founded two_leaderless parted_eq alone_eq
    secondParted_eq firstLeft_eq (by decide +kernel) (by decide +kernel) (by decide +kernel)
  exact ⟨by decide +kernel,hl,hsame,hfirst hl⟩

end

section

variable [Raftpb] {F : Founding} {B : Base Entry}
  {allowed : Cluster → Nat → Event → Bool} {c0 c1 : Cluster} {before : List (Nat × Event)}

/-- A term speaks with one voice: whatever is sent in it as its leader comes from one node. -/
theorem one_voice (hf : c0.Founded F B)
    (hlead : ∀ i H, c0.hosts.get? i=some H → H.rn.raft.lead=noNode)
    (h1 : c0.run allowed before=some c1) {m n : Message} (hm : m ∈ c1.net) (hn : n ∈ c1.net)
    (hmt : m.type.leads=true) (hnt : n.type.leads=true) (hterm : m.term=n.term) :
    m.fromId=n.fromId := by
  obtain ⟨h1,-,-,hc1⟩ := run_knows hf.realm (hf.knows hlead) h1
  have hledm := hc1.net m hm hmt
  rw [hterm] at hledm
  exact Option.some.inj (hledm.symm.trans (hc1.net n hn hnt))

end

section

attribute [local instance] ledgerWire

theorem one_voice_removal : append 1 2 [{ (default : Entry) with term := 2, index := 3 }] 2 ∈
    parted.net ∧ append 2 4 [] 4 ∈ parted.net ∧
    (append 1 2 [{ (default : Entry) with term := 2, index := 3 }] 2).fromId=
      (append 2 4 [] 4).fromId := by
  have hm : append 1 2 [{ (default : Entry) with term := 2, index := 3 }] 2 ∈ parted.net := by
    decide +kernel
  have hn : append 2 4 [] 4 ∈ parted.net := by decide +kernel
  exact ⟨hm,hn,one_voice two_founded two_leaderless parted_eq hm hn rfl rfl rfl⟩

end

end Cluster

end RaftTesting
