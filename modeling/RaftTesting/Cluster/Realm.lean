import RaftTesting.Cluster.Reconfig

namespace RaftTesting

open Consensus

namespace Core

theorem answerRead_subset {c c' : Core} {req : Message} {index : Nat}
    (h : c.answerRead req index=.ok c') : c.msgs ⊆ c'.msgs := by
  unfold answerRead at h
  split at h
  · obtain ⟨ctx,_,h⟩ := bind_eq_ok.mp h
    cases h
    exact List.Subset.refl _
  · cases h
    exact List.subset_append_left _ _

theorem Read.msgs_subset {S : Message → Prop} {c c' : Core} (h : Read S c c') :
    c.msgs ⊆ c'.msgs := by
  cases h with
  | park | unpark | learn | register | ack => exact List.Subset.refl _
  | lease _ _ h => exact answerRead_subset h
  | singleton _ _ _ _ h => exact answerRead_subset h
  | release _ _ _ _ _ _ h =>
    have hall := foldlM_rel (R := fun a b : Core => a.msgs ⊆ b.msgs) (fun _ => List.Subset.refl _)
      (fun _ _ _ => List.Subset.trans) (fun _ _ _ _ => answerRead_subset) h
    exact hall

section

variable [Raftpb] {S : Message → Prop} {c c' : Core}

/-- A node takes back nothing that it has said. -/
theorem HostMove.msgs_subset (h : HostMove S c c') : c.msgs ⊆ c'.msgs := by
  cases h with
  | move h =>
    cases h with
    | send h =>
      cases h with
      | app | snap | heartbeat | plain => exact List.subset_append_left _ _
      | track | back => exact List.Subset.refl _
      | read h => exact h.msgs_subset
    | follow | preStand | stand | poll | elect | append | pend | commit | ack | forward =>
      exact List.Subset.refl _
    | vote | accept | stale | beat | skip | restore => exact List.subset_append_left _ _
  | applied | leave => exact List.Subset.refl _

theorem HostMoves.msgs_subset (h : HostMoves S c c') : c.msgs ⊆ c'.msgs := by
  induction h with
  | refl => exact List.Subset.refl _
  | tail _ h ih => exact List.Subset.trans ih h.msgs_subset

end

end Core

section

variable [Raftpb]

/-- What a host has to send it keeps until it hands it to the network. -/
theorem Host.act_kept {H H' : Host} {e : Event} {ms : List Message}
    (hst : ∀ m, e.message H.rn.raft.id=some m → m.Stamped) (h : H.act e=.ok (H',ms)) {m : Message}
    (hm : m ∈ H.rn.raft.msgs) : m ∈ H'.rn.raft.msgs ∨ m ∈ ms := by
  cases Host.act_does h with
  | stay => exact .inl hm
  | step he hr =>
    have hmoves := Raft.step_moves (S := fun _ => True) (fun _ => trivial) (hst _ he) hr
    exact .inl (hmoves.host.msgs_subset hm)
  | tick hr => exact .inl ((Raft.tick_moves (S := fun _ => True) hr).host.msgs_subset hm)
  | ready _ hr =>
    obtain ⟨rd',hrd,hr⟩ := bind_eq_ok.mp hr
    cases hr
    obtain ⟨ents,-,hrd⟩ := bind_eq_ok.mp hrd
    cases hrd
    exact .inr hm
  | save => exact .inl hm
  | apply _ he =>
    obtain ⟨cc,-,he⟩ := bind_eq_ok.mp he
    cases cc with
    | none =>
      cases he
      exact .inl hm
    | some cc =>
      obtain ⟨⟨rn,cs⟩,h1,h2⟩ := bind_eq_ok.mp he
      obtain ⟨⟨r,cs'⟩,hr,h3⟩ := bind_eq_ok.mp h1
      cases h3
      cases h2
      obtain ⟨t,-,hmoves⟩ := Raft.applyConfChange_moves (S := fun _ => True) hr
      exact .inl (hmoves.host.msgs_subset hm)
  | advance _ _ _ hadv =>
    obtain ⟨r,hr,h1⟩ := bind_eq_ok.mp hadv
    cases h1
    obtain ⟨c,hmoves,hcore⟩ := Raft.advance_moves (S := fun _ => True) hr
    have hmsgs : r.msgs=c.msgs := congrArg Core.msgs hcore
    refine .inl ?_
    change m ∈ r.msgs
    rw [hmsgs]
    exact hmoves.msgs_subset hm

end

namespace Raft

/-- Whether a leader that decides alone has committed in its term is a matter of its entries. -/
theorem Sole.setLog {r : Raft} (h : r.Sole) (hw : r.raftLog.Whole) {l : RaftLog}
    (hall : l.all=r.raftLog.all) (hcm : l.committed=r.raftLog.committed) : (r.setLog l).Sole := by
  intro hl ha hwl hfit
  have hwl : l.Whole := hwl
  have hfit : l.lastIndex ≤ maxUint64 := hfit
  rw [hwl.lastIndex_eq,hall,← hw.lastIndex_eq] at hfit
  have hown := h hl ha hw hfit
  unfold Owns at hown ⊢
  rw [hw.term_eq] at hown
  change RaftLog.zeroTermOnErrCompacted (l.term l.committed)=.ok r.term
  rw [hwl.term_eq,hall,hcm]
  exact hown

theorem Sole.own_term {r : Raft} (h : r.Sole) (hw : r.raftLog.Whole) (hl : r.state=.stateLeader)
    (ha : r.Alone) (hfit : r.raftLog.lastIndex ≤ maxUint64) :
    termAt r.raftLog.all r.raftLog.committed=r.term := by
  have hown := h hl ha hw hfit
  unfold Owns at hown
  rw [hw.term_eq] at hown
  exact Except.ok.inj hown

end Raft

section

variable [Raftpb] {F : Founding} {B : Base Entry} {h : Hist Entry} {i a : Nat} {H H' : Host}
  (hp : HostPlaced F B h i a H)
include hp

theorem HostPlaced.committed_le : H.rn.raft.raftLog.committed≤H.rn.raft.raftLog.lastIndex := by
  have hw : H.rn.raft.raftLog.Whole := hp.hosted.core.log
  rw [hw.lastIndex_eq]
  exact hp.hosted.core.committed_le

/-- A leader that has committed a change it has not applied has committed it in its term. -/
theorem HostPlaced.own_of_due (hl : H.rn.raft.state=.stateLeader) {e : Entry} {es : List Entry}
    (hap : H.toApply=e::es) (hconf : e.isConf=true) :
    termAt H.rn.raft.raftLog.all H.rn.raft.raftLog.committed=H.rn.raft.term := by
  obtain ⟨hat,-,hreach⟩ := hp.due_head hap
  obtain ⟨-,-,hown⟩ := hp.placed.leads hl
  refine hown.resolve_right (fun hnone => ?_)
  have hat' : (H.rn.raft.raftLog.all.take H.rn.raft.raftLog.committed)[a]?=some e := by
    rw [List.getElem?_take_of_lt (by omega)]
    exact hat
  have hfalse := Succession.confs_drop_eq_nil.mp hnone a e le_rfl hat'
  exact absurd hconf (by rw [show e.isConf=false from hfalse]; exact Bool.false_ne_true)

theorem HostPlaced.sole_apply (hs : H.rn.raft.Sole) {e : Entry} {es : List Entry}
    (hap : H.toApply=e::es) (ha : H.applyEntry e=.ok H') : H'.rn.raft.Sole := by
  obtain ⟨cc,hcc,ha⟩ := bind_eq_ok.mp ha
  cases cc with
  | none =>
    cases ha
    exact hs
  | some cc =>
    obtain ⟨⟨rn,cs⟩,h1,h2⟩ := bind_eq_ok.mp ha
    obtain ⟨⟨r,cs'⟩,hr,h3⟩ := bind_eq_ok.mp h1
    cases h3
    cases h2
    unfold Raft.applyConfChange at hr
    split at hr
    · cases hr
    · rename_i t _
      obtain ⟨lt,hstill⟩ := Raft.switchToConfig_installs hr
      refine Raft.Sole.still ?_ hstill
      intro hl _ hw _
      have hw : H.rn.raft.raftLog.Whole := hw
      change RaftLog.zeroTermOnErrCompacted
        (H.rn.raft.raftLog.term H.rn.raft.raftLog.committed)=.ok H.rn.raft.term
      rw [hw.term_eq,hp.own_of_due hl hap (Raft.confChangeOf_some hcc)]
      rfl

theorem HostPlaced.sole_advance (hh : HistInv B h) (hg : h.Governed F.succession B)
    (hs : H.rn.raft.Sole) {rd : Ready} {rn : RawNode} (hrd : H.pending=some rd)
    (hsv : H.saved=true) (hap : H.toApply=[]) (ha : H.rn.advance rd=.ok rn) : rn.raft.Sole := by
  obtain ⟨r,hr,ha⟩ := bind_eq_ok.mp ha
  cases ha
  obtain ⟨r1,h1,hr⟩ := bind_eq_ok.mp hr
  cases hr
  have hlast : r1.raftLog.applied=a := by
    have happ := (Raft.advanceApplied_log h1).1
    have hcur := hp.cursor rd hrd
    rw [hap,List.length_nil,Nat.add_zero] at hcur
    exact happ.trans hcur
  have hmoves : Core.HostMoves (fun _ => False) H.rn.raft.core r1.core :=
    Raft.advanceApplied_moves (r := H.rn.raft.reduceUncommittedSize rd.committedEntries) h1
  obtain ⟨h',p,-⟩ := Core.chain_carried (S := fun _ => False) (P := fun _ _ => True) (fun hm => hm)
    (fun _ hm => hm.elim) (fun _ _ _ _ _ => trivial) (hp.ordered hh hg) trivial hmoves hlast.le
  obtain ⟨-,hall⟩ := hp.hosted.advance { H.rn with raft := r1.setLog (rd.stabilize r1.raftLog) }
    hrd hsv p.toShift p.ordered.core rfl
  have hsole : r1.Sole := by
    have hw : H.rn.raft.raftLog.Whole := hp.hosted.core.log
    have hs0 : (H.rn.raft.reduceUncommittedSize rd.committedEntries).Sole := hs
    rcases Raft.advanceApplied_turn h1 with ⟨-,rfl⟩ | ⟨-,l,hl,hturn⟩
    · exact hs0
    · have hsame : l.storage=H.rn.raft.raftLog.storage ∧ l.unstable=H.rn.raft.raftLog.unstable ∧
          l.committed=H.rn.raft.raftLog.committed := by
        rcases RaftLog.appliedTo_spec hl with ⟨-,rfl⟩ | ⟨-,-,-,rfl⟩ <;> exact ⟨rfl,rfl,rfl⟩
      have hwl : l.Whole := hw.congr hsame.1 hsame.2.1
      have hall0 := RaftLog.all_congr hsame.1 hsame.2.1
      refine (hs0.setLog hw hall0 hsame.2.2).turn hwl ?_ hturn
      change l.committed≤l.lastIndex
      rw [hsame.2.2,hwl.lastIndex_eq,hall0]
      exact hp.hosted.core.committed_le
  refine hsole.setLog p.ordered.core.log hall ?_
  rw [rd.stabilize_eq]

theorem HostPlaced.sole (hh : HistInv B h) (hg : h.Governed F.succession B)
    (hs : H.rn.raft.Sole) {e : Event} {ms : List Message} (ha : H.act e=.ok (H',ms)) :
    H'.rn.raft.Sole := by
  cases Host.act_does ha with
  | stay => exact hs
  | step _ hr => exact hs.turn hp.hosted.core.log hp.committed_le (Raft.step_turn hr)
  | tick hr =>
    exact hs.turn hp.hosted.core.log hp.committed_le (Raft.tick_turn (A := fun _ => False) hr)
  | ready _ hr =>
    obtain ⟨rd',hrd,hr⟩ := bind_eq_ok.mp hr
    cases hr
    exact hs.still (.of_aside rfl)
  | save hrd hsv hwrite => exact hs.setLog hp.hosted.core.log (hp.hosted.save hrd hsv hwrite).2 rfl
  | apply hap he =>
    have hsole := hp.sole_apply hs hap he
    exact hsole
  | advance hrd hsv hap hr => exact hp.sole_advance hh hg hs hrd hsv hap hr

end

/-- The hosts in their places, the history they share, and the network between them. -/
structure Realm [Raftpb] (F : Founding) (B : Base Entry) (h : Hist Entry) (c : Cluster) : Prop where
  hist : HistInv B h
  governed : h.Governed F.succession B
  hosts : ∀ i H, c.hosts.get? i=some H → ∃ a, HostPlaced F B h i a H
  sole : ∀ i H, c.hosts.get? i=some H → H.rn.raft.Sole
  net : ∀ m ∈ c.net, m.Ok h ∧ m.Stamped ∧ m.Trimmed F h

namespace Cluster

/-- What an event at host i leaves alone, and where new messages come from. -/
structure Evolves (c : Cluster) (i : Nat) (c' : Cluster) : Prop where
  others : ∀ j, j≠i → c'.hosts.get? j=c.hosts.get? j
  net : c.net ⊆ c'.net
  sent : ∀ m ∈ c'.net, m ∈ c.net ∨ ∃ H, c.hosts.get? i=some H ∧ m ∈ H.rn.raft.msgs
  kept : ∀ H, c.hosts.get? i=some H → ∃ H', c'.hosts.get? i=some H' ∧
    ∀ m ∈ H.rn.raft.msgs, m ∈ H'.rn.raft.msgs ∨ m ∈ c'.net

theorem Evolves.refl (c : Cluster) (i : Nat) : c.Evolves i c :=
  ⟨fun _ _ => rfl,List.Subset.refl _,fun _ => .inl,fun H hH => ⟨H,hH,fun _ => .inl⟩⟩

end Cluster

section

variable [Raftpb] {F : Founding} {B : Base Entry} {h : Hist Entry} {c c' : Cluster} {i : Nat}
  {e : Event}

/-- The messages that the node is stepped with are the network's or its application's. -/
theorem Realm.given (hr : Realm F B h c) (hen : c.enabled i e=true) {id : Nat} {m : Message}
    (hm : e.message id=some m) : Given h i m ∧ m.Trimmed F h := by
  cases e with
  | recv n =>
    cases Option.some.inj hm
    simp only [Cluster.enabled,Bool.and_eq_true,decide_eq_true_eq] at hen
    obtain ⟨hok,hst,htrim⟩ := hr.net m hen.1
    exact ⟨⟨hok,hst,fun _ => hen.2⟩,htrim⟩
  | call n =>
    cases hm
    refine ⟨n.given h i id,fun ht => ?_⟩
    cases n <;> cases ht
  | tick | ready | save | apply | advance => cases hm

/-- Whatever happens at one of the hosts, all stay in their places. -/
theorem Realm.act (hr : Realm F B h c) {P : Hist Entry → Core → Prop}
    (hP : (∀ id, e.message id=none) → Upheld F B i P)
    (hc : ∀ H, c.hosts.get? i=some H → P h H.rn.raft.core)
    (hstep : ∀ H a m r err, c.hosts.get? i=some H → HostPlaced F B h i a H →
      c.enabled i e=true → e.message H.rn.raft.id=some m → H.rn.raft.step m=.ok (r,err) →
      ∃ h', Carried F B i a h H.rn.raft.core h' r.core ∧ P h' r.core)
    (ha : c.act i e=.ok c') : ∃ h', h.Grown i h' ∧ Realm F B h' c' ∧ c.Evolves i c' ∧
      ∀ H', c'.hosts.get? i=some H' → P h' H'.rn.raft.core := by
  unfold Cluster.act at ha
  split at ha
  · cases ha
    exact ⟨h,.refl i h,hr,.refl c i,hc⟩
  rename_i H hH
  split at ha
  swap
  · cases ha
    exact ⟨h,.refl i h,hr,.refl c i,hc⟩
  rename_i hen
  obtain ⟨⟨H',ms⟩,hact,ha⟩ := bind_eq_ok.mp ha
  cases ha
  obtain ⟨a,hp⟩ := hr.hosts i H hH
  have hst : ∀ m, e.message H.rn.raft.id=some m → m.Stamped :=
    fun m hm => (hr.given hen hm).1.2.1
  obtain ⟨h',a',s⟩ := hp.act hr.hist hr.governed hP (hc H hH) hst
    (fun m r err hm hr' => hstep H a m r err hH hp hen hm hr') hact
  have hget : ∀ {j J}, (c.hosts.insert i H').get? j=some J → j=i ∧ J=H' ∨
      j≠i ∧ c.hosts.get? j=some J := by
    intro j J hJ
    rw [SortedMap.get?_insert] at hJ
    split_ifs at hJ with hji
    · exact .inl ⟨hji,(Option.some.inj hJ).symm⟩
    · exact .inr ⟨hji,hJ⟩
  refine ⟨h',s.grown,⟨s.hist,s.governed,?_,?_,?_⟩,⟨?_,?_,?_,?_⟩,?_⟩
  · intro j J hJ
    rcases hget hJ with ⟨rfl,rfl⟩ | ⟨hji,hJ⟩
    · exact ⟨a',s.placed⟩
    · obtain ⟨b,hb⟩ := hr.hosts j J hJ
      exact ⟨b,hb.frame hr.hist s.grown hji⟩
  · intro j J hJ
    rcases hget hJ with ⟨rfl,rfl⟩ | ⟨-,hJ⟩
    · exact hp.sole hr.hist hr.governed (hr.sole j H hH) hact
    · exact hr.sole j J hJ
  · intro m hm
    rcases List.mem_append.mp hm with hm | hm
    · obtain ⟨hok,hst,htrim⟩ := hr.net m hm
      exact ⟨hok.mono s.grown,hst,htrim.grown hok s.grown⟩
    · have hmem := s.said m hm
      obtain ⟨hok,hst⟩ := hp.hosted.core.msgs m hmem
      exact ⟨hok.mono s.grown,hst,(hp.trimmed m hmem).grown hok s.grown⟩
  · intro j hji
    exact SortedMap.get?_insert_ne _ _ hji
  · exact List.subset_append_left _ _
  · intro m hm
    rcases List.mem_append.mp hm with hm | hm
    · exact .inl hm
    · exact .inr ⟨H,hH,s.said m hm⟩
  · intro J hJ
    cases Option.some.inj (hH.symm.trans hJ)
    refine ⟨H',SortedMap.get?_insert_self ..,fun m hm => ?_⟩
    rcases Host.act_kept hst hact hm with hm | hm
    · exact .inl hm
    · exact .inr (List.mem_append_right _ hm)
  · intro J hJ
    cases Option.some.inj ((SortedMap.get?_insert_self ..).symm.trans hJ)
    exact s.kept

end

end RaftTesting
