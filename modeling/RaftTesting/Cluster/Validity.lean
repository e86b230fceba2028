import RaftTesting.Cluster.Ledger
import RaftTesting.Log.Held
import RaftTesting.Node.Touch

namespace RaftTesting

open Consensus

/-- The entries that a message hands on have P. -/
def Message.Carries (P : EntryType × Bytes → Prop) (m : Message) : Prop :=
  m.type=.msgApp ∨ m.type=.msgProp → ∀ e ∈ m.entries, P e.payload

theorem Ready.stabilize_holds {P : Entry → Prop} {l : RaftLog} (rd : Ready) (hl : l.Holds P) :
    (rd.stabilize l).Holds P := by
  have hst : ∀ l : RaftLog, l.Holds P →
      (if isEmptySnap rd.snapshot then l else l.stableSnapTo rd.snapshot.index).Holds P := by
    intro l hl
    split_ifs
    · exact hl
    · exact hl.stableSnapTo _
  refine hst _ ?_
  split
  · exact hl.stableTo _ _
  · exact hl

/-- What a node keeps and what it is about to send have P. -/
structure Raft.Holds (P : EntryType × Bytes → Prop) (r : Raft) : Prop where
  log : r.raftLog.Holds (fun e => P e.payload)
  msgs : ∀ m ∈ r.msgs, m.Carries P

namespace Raft

theorem stampEntries_payload {term last : Nat} {es : List Entry} {e : Entry}
    (he : e ∈ stampEntries term last es) : ∃ e' ∈ es, e'.payload=e.payload := by
  unfold stampEntries at he
  obtain ⟨i,hi,rfl⟩ := List.mem_mapIdx.mp he
  exact ⟨es[i],List.getElem_mem hi,rfl⟩

section

variable [Raftpb] {M : Message → Prop} {P : EntryType × Bytes → Prop} {r r' : Raft}

theorem Says.carries {n : Message} (hM : ∀ m, M m → m.Carries P) (hr : r.Holds P)
    (h : Says M r n) : n.Carries P := by
  rintro (ht | ht)
  · unfold Says at h
    rw [ht] at h
    obtain ⟨-,-,-,i,hents⟩ := h
    exact (RaftLog.entries_holds hr.log hents).1
  · unfold Says at h
    rw [ht] at h
    obtain ⟨-,-,-,m,hm,hmt,he⟩ := h
    rw [← he]
    exact hM m hm (.inr hmt)

/-- Entries come into a log only from the messages the node is given. -/
theorem Touch.holds (hblank : P (default : Entry).payload) (hM : ∀ m, M m → m.Carries P)
    (hr : r.Holds P) (h : Touch M r r') : r'.Holds P := by
  cases h with
  | post h =>
    cases h with
    | say h =>
      refine ⟨hr.log,fun n hn => ?_⟩
      rcases List.mem_append.mp hn with hn | hn
      · exact hr.msgs n hn
      · cases List.mem_singleton.mp hn
        exact h.carries hM hr
    | track => exact ⟨hr.log,hr.msgs⟩
    | reads => exact ⟨hr.log,hr.msgs⟩
  | preStand _ _ hms =>
    refine ⟨hr.log,fun n hn => ?_⟩
    rcases List.mem_append.mp hn with hn | hn
    · exact hr.msgs n hn
    · rintro (ht | ht) <;> cases (hms n hn).1.symm.trans ht
  | follow | stand | poll | rise | pend | release | hear | vote | aim | abort =>
    exact ⟨hr.log,hr.msgs⟩
  | grow _ hes hl =>
    refine ⟨hr.log.append (fun e he => ?_) hl,hr.msgs⟩
    obtain ⟨e',he',hpay⟩ := stampEntries_payload he
    rw [← hpay]
    rcases hes e' he' with rfl | ⟨m,hm,ht,hmem⟩
    · exact hblank
    · exact hM m hm (.inr ht) e' hmem
  | commit => exact ⟨⟨hr.log.storage,hr.log.unstable⟩,hr.msgs⟩
  | store hm ht _ hl => exact ⟨hr.log.maybeAppend (hM _ hm (.inl ht)) hl,hr.msgs⟩
  | restore => exact ⟨hr.log.restore _,hr.msgs⟩

theorem Touches.holds (hblank : P (default : Entry).payload) (hM : ∀ m, M m → m.Carries P)
    (hr : r.Holds P) (h : Touches M r r') : r'.Holds P := by
  induction h with
  | refl => exact hr
  | tail _ h ih => exact h.holds hblank hM ih

theorem TickTouches.holds (hblank : P (default : Entry).payload) (hM : ∀ m, M m → m.Carries P)
    (hr : r.Holds P) (h : TickTouches M r r') : r'.Holds P := by
  induction h with
  | refl => exact hr
  | tail _ h ih =>
    cases h with
    | touch h => exact h.holds hblank hM ih
    | clock => exact ⟨ih.log,ih.msgs⟩

omit [Raftpb] in
theorem Holds.setLog (hr : r.Holds P) {l : RaftLog} (hl : l.Holds (fun e => P e.payload)) :
    (r.setLog l).Holds P := ⟨hl,hr.msgs⟩

theorem applyConfChange_holds (hblank : P (default : Entry).payload) (hr : r.Holds P)
    {cc : ConfChangeV2} {cs : ConfState} (h : r.applyConfChange cc=.ok (r',cs)) : r'.Holds P := by
  obtain ⟨t,-,h⟩ := applyConfChange_touches (S := fun _ => False) h
  have hinstalled : (r.installConfig t).Holds P := ⟨hr.log,hr.msgs⟩
  exact h.holds hblank (fun _ hm => hm.elim) hinstalled

theorem advance_holds (hblank : P (default : Entry).payload)
    (hleave : r.prs.config.autoLeave=true → P autoLeaveEntry.payload) (hr : r.Holds P)
    {rd : Ready} (h : r.advance rd=.ok r') : r'.Holds P := by
  obtain ⟨l,r1,hl,h1,rfl⟩ := advance_touches h
  have hheld : l.Holds (fun e => P e.payload) := by
    rw [hl.1]
    exact ⟨hr.log.storage,hr.log.unstable⟩
  have hr1 : r1.Holds P := by
    rcases h1 with h1 | ⟨-,hauto,u,l',hl',h1⟩
    · rw [h1]
      exact ⟨hheld,hr.msgs⟩
    · have hgrown : l'.Holds (fun e => P e.payload) := by
        refine hheld.append (fun e he => ?_) hl'
        obtain ⟨e',he',hpay⟩ := stampEntries_payload he
        cases List.mem_singleton.mp he'
        rw [← hpay]
        exact hleave hauto
      have hstart : Raft.Holds P { r with raftLog := l', uncommittedSize := u } :=
        ⟨hgrown,hr.msgs⟩
      exact (h1 (fun _ => False)).holds hblank (fun _ hm => hm.elim) hstart
  exact hr1.setLog (rd.stabilize_holds hr1.log)

end

end Raft

theorem Ready.save_holds {P : EntryType × Bytes → Prop} {rd : Ready} {ms ms' : MemoryStorage}
    (hblank : P (default : Entry).payload) (hms : ∀ e ∈ ms.ents, P e.payload)
    (hrd : ∀ e ∈ rd.entries, P e.payload) (h : rd.save ms=.ok ms') : ∀ e ∈ ms'.ents, P e.payload := by
  refine MemoryStorage.append_holds (P := fun e => P e.payload) ?_ hrd h
  split_ifs
  · exact hms
  · split
    · rename_i hsnap
      unfold MemoryStorage.applySnapshot at hsnap
      split_ifs at hsnap
      cases hsnap
      intro e he
      cases List.mem_singleton.mp he
      exact hblank
    · exact hms

/-- What a host keeps, hands on and applies has P. -/
structure Host.Holds (P : EntryType × Bytes → Prop) (H : Host) : Prop where
  node : H.rn.raft.Holds P
  pending : ∀ rd, H.pending=some rd → ∀ e ∈ rd.entries, P e.payload
  due : ∀ e ∈ H.toApply, P e.payload

section

variable [Raftpb] {P : EntryType × Bytes → Prop} {H H' : Host} {e : Event} {ms : List Message}

theorem Host.Does.holds (hblank : P (default : Entry).payload)
    (hleave : H.rn.raft.prs.config.autoLeave=true → P Raft.autoLeaveEntry.payload)
    (hgiven : ∀ m, e.message H.rn.raft.id=some m → m.Stamped ∧ m.Carries P) (hH : H.Holds P)
    (hd : H.Does e H' ms) : H'.Holds P ∧ ∀ m ∈ ms, m.Carries P := by
  have hnone : ∀ m ∈ ([] : List Message), m.Carries P := fun _ hm => absurd hm List.not_mem_nil
  cases hd with
  | stay => exact ⟨hH,hnone⟩
  | @step _ m r err hm hr =>
    obtain ⟨hst,hc⟩ := hgiven m hm
    have ht := Raft.step_touches (S := (·=m)) (fun _ => rfl) hst hr
    exact ⟨⟨ht.holds hblank (by rintro _ rfl; exact hc) hH.node,hH.pending,hH.due⟩,hnone⟩
  | tick hr =>
    have ht := Raft.tick_touches (S := fun _ => False) hr
    exact ⟨⟨ht.holds hblank (fun _ hm => hm.elim) hH.node,hH.pending,hH.due⟩,hnone⟩
  | ready _ hr =>
    obtain ⟨rd,hrd,hr⟩ := bind_eq_ok.mp hr
    cases hr
    obtain ⟨ents,hents,hrd⟩ := bind_eq_ok.mp hrd
    cases hrd
    refine ⟨⟨⟨hH.node.log,fun _ hm => absurd hm List.not_mem_nil⟩,?_,?_⟩,hH.node.msgs⟩
    · intro rd hrd
      cases hrd
      exact hH.node.log.unstable
    · exact (RaftLog.nextEnts_holds hH.node.log hents).1
  | save hp _ hms =>
    have hstored := Ready.save_holds hblank hH.node.log.storage (hH.pending _ hp) hms
    exact ⟨⟨⟨⟨hstored,hH.node.log.unstable⟩,hH.node.msgs⟩,hH.pending,hH.due⟩,hnone⟩
  | @apply e es H1 hap he =>
    have hrest : ∀ e ∈ es, P e.payload :=
      fun x hx => hH.due x (hap ▸ List.mem_cons_of_mem _ hx)
    rcases Host.applyEntry_cases he with rfl | ⟨cc,r,cs,hr,rfl⟩
    · exact ⟨⟨hH.node,hH.pending,hrest⟩,hnone⟩
    · exact ⟨⟨Raft.applyConfChange_holds hblank hH.node hr,hH.pending,hrest⟩,hnone⟩
  | advance _ _ _ hr =>
    obtain ⟨r,hadv,h1⟩ := bind_eq_ok.mp hr
    cases h1
    refine ⟨⟨Raft.advance_holds hblank hleave hH.node hadv,?_,hH.due⟩,hnone⟩
    intro rd hrd
    cases hrd

end

/-- The entry's payload is what an application asks its node to replicate. -/
def Event.Proposes (p : EntryType × Bytes) : Event → Prop
  | .call (.propose ents) => ∃ e ∈ ents, e.payload=p
  | _ => False

/-- All that the hosts keep and the network carries has P. -/
structure Cluster.Holds (P : EntryType × Bytes → Prop) (c : Cluster) : Prop where
  hosts : ∀ i H, c.hosts.get? i=some H → H.Holds P
  net : ∀ m ∈ c.net, m.Carries P

section

variable [Raftpb] {P : EntryType × Bytes → Prop} {F : Founding} {B : Base Entry} {h : Hist Entry}
  {c c' : Cluster} {i : Nat} {e : Event}

theorem Realm.holds (hr : Realm F B h c) (hblank : P (default : Entry).payload)
    (hleave : ∀ H, c.hosts.get? i=some H → H.rn.raft.prs.config.autoLeave=true →
      P Raft.autoLeaveEntry.payload)
    (hprop : ∀ p, e.Proposes p → P p) (hc : c.Holds P) (ha : c.act i e=.ok c') : c'.Holds P := by
  rcases Cluster.act_cases ha with rfl | ⟨H,H',ms,hH,hen,hact,rfl⟩
  · exact hc
  have hgiven : ∀ m, e.message H.rn.raft.id=some m → m.Stamped ∧ m.Carries P := by
    intro m hm
    refine ⟨(hr.given hen hm).1.2.1,?_⟩
    cases e with
    | recv n =>
      cases hm
      simp only [Cluster.enabled,Bool.and_eq_true,decide_eq_true_eq] at hen
      exact hc.net m hen.1
    | call n =>
      cases hm
      cases n with
      | propose ents => exact fun _ x hx => hprop _ ⟨x,hx,rfl⟩
      | campaign | readIndex | transferLeader | reportUnreachable | reportSnapshot =>
        rintro (ht | ht) <;> cases ht
    | tick | ready | save | apply | advance => cases hm
  obtain ⟨hH',hms⟩ := (Host.act_does hact).holds hblank (hleave H hH) hgiven (hc.hosts i H hH)
  refine ⟨fun j J hJ => ?_,List.forall_mem_append.mpr ⟨hc.net,hms⟩⟩
  rw [SortedMap.get?_insert] at hJ
  split_ifs at hJ
  · cases hJ
    exact hH'
  · exact hc.hosts j J hJ

end

/-- Every entry that the host has, also the one before the first of its storage. -/
def Host.kept (H : Host) : List Entry :=
  H.rn.raft.raftLog.storage.ents++H.rn.raft.raftLog.unstable.entries

namespace Cluster

section

variable [Raftpb] {P : EntryType × Bytes → Prop} {F : Founding} {B : Base Entry}
  {allowed : Cluster → Nat → Event → Bool} {c0 c : Cluster} {es : List (Nat × Event)}

theorem run_holds {h : Hist Entry} (hr : Realm F B h c0) (hblank : P (default : Entry).payload)
    (hleave : P Raft.autoLeaveEntry.payload) (hprop : ∀ p, ∀ x ∈ es, x.2.Proposes p → P p)
    (hc : c0.Holds P) (he : c0.run allowed es=some c) : c.Holds P := by
  induction es generalizing c0 h with
  | nil =>
    cases he
    exact hc
  | cons e es ih =>
    obtain ⟨i,e⟩ := e
    simp only [run] at he
    split_ifs at he
    split at he
    · cases he
    · rename_i c1 hact
      obtain ⟨h1,-,hr1⟩ := hr.step hact
      have hc1 := hr.holds hblank (fun _ _ _ => hleave)
        (fun p => hprop p _ List.mem_cons_self) hc hact
      exact ih hr1 (fun p x hx => hprop p x (List.mem_cons_of_mem _ hx)) hc1 he

/-- Nothing is made up: what stands in a log at the end of a run was proposed in it, was there
at the start, or is one of the two entries that leaders write themselves, an empty one and
the one that leaves a joint configuration. -/
theorem run_proposed (hf : c0.Founded F B) (he : c0.run allowed es=some c) {i : Nat} {H : Host}
    (hH : c.hosts.get? i=some H) {e : Entry} (hmem : e ∈ H.rn.raft.raftLog.all) :
    (∃ x ∈ es, x.2.Proposes e.payload) ∨
    (∃ j J, c0.hosts.get? j=some J ∧ ∃ e' ∈ J.kept, e'.payload=e.payload) ∨
    e.payload=(default : Entry).payload ∨ e.payload=Raft.autoLeaveEntry.payload := by
  let P := fun p : EntryType × Bytes => (∃ x ∈ es, x.2.Proposes p) ∨
    (∃ j J, c0.hosts.get? j=some J ∧ ∃ e' ∈ J.kept, e'.payload=p) ∨
    p=(default : Entry).payload ∨ p=Raft.autoLeaveEntry.payload
  have hstart : c0.Holds P := by
    refine ⟨fun j J hJ => ?_,fun m hm => ?_⟩
    · have hfresh := (hf.hosts j J hJ).fresh
      have hkept : ∀ e' ∈ J.kept, P e'.payload := fun e' he' => .inr (.inl ⟨j,J,hJ,e',he',rfl⟩)
      refine ⟨⟨⟨fun e' he' => ?_,fun e' he' => ?_⟩,fun m hm => ?_⟩,fun rd hrd => ?_,?_⟩
      · exact hkept e' (List.mem_append_left _ he')
      · exact hkept e' (List.mem_append_right _ he')
      · rw [hfresh.msgs] at hm
        cases hm
      · cases hfresh.pending.symm.trans hrd
      · rw [hfresh.toApply]
        exact fun _ he' => absurd he' List.not_mem_nil
    · rw [hf.net] at hm
      cases hm
  have hend := run_holds (P := P) hf.realm (.inr (.inr (.inl rfl))) (.inr (.inr (.inr rfl)))
    (fun p x hx hp => .inl ⟨x,hx,hp⟩) hstart he
  exact (hend.hosts i H hH).node.log.all e hmem

end

section

attribute [local instance] ledgerWire

/-- The entry of the first node's removal, as it stands in the logs. -/
def removedFirst : Entry := { removeFirst with term := 2, index := 4 }

theorem run_proposed_removal : removedFirst ∈ firstParted.rn.raft.raftLog.all ∧
    ∃ x ∈ removal.take 41, x.2.Proposes removedFirst.payload := by
  have hmem : removedFirst ∈ firstParted.rn.raft.raftLog.all := by decide +kernel
  refine ⟨hmem,?_⟩
  rcases run_proposed two_founded parted_eq firstParted_eq hmem with h | ⟨j,J,hJ,e,he,hpay⟩ | h | h
  · exact h
  · have hall : two.hosts.pairs.all (fun p => p.2.kept.all (fun e =>
        e.payload≠removedFirst.payload))=true := by decide +kernel
    have hnot := List.all_eq_true.mp hall (j,J) (SortedMap.mem_pairs hJ)
    exact absurd hpay (of_decide_eq_true (List.all_eq_true.mp hnot e he))
  · exact absurd h (by decide)
  · exact absurd h (by decide)

end

end Cluster

end RaftTesting
