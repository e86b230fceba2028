import RaftTesting.Cluster.Linear
import RaftTesting.Framework.Ledger

namespace RaftTesting

open Consensus

namespace Consensus

variable {E : Type}

/-- What was on record still is, and leaders have only gone on. -/
structure Hist.Later (h h' : Hist E) : Prop where
  lead : ∀ T i, h.lead T=some i → h'.lead T=some i
  llog : ∀ T, h.llog T<+:h'.llog T
  comm : ∀ T, h.comm T≤h'.comm T

theorem Hist.Later.refl (h : Hist E) : h.Later h :=
  ⟨fun _ _ => id,fun _ => List.prefix_refl _,fun _ => le_rfl⟩

theorem Hist.Grown.andLater {h h' h'' : Hist E} {i : Nat} (g : h.Grown i h') (l : h'.Later h'') :
    h.Later h'' where
  lead := fun T j hj => l.lead T j (g.lead_some hj)
  llog := fun T => (g.llog T).trans (l.llog T)
  comm := fun T => (g.comm T).trans (l.comm T)

variable [Termed E] {B : Base E} {h h' : Hist E} {i j : Nat} {n m : Node E}

/-- What a node has committed, another one has not committed otherwise later. -/
theorem NodeInv.commit_later (hn : NodeInv B h i n) (hm : NodeInv B h' j m) (hh : HistInv B h')
    (hl : h.Later h') {k : Nat} (hk : k≤n.commit) (hk' : k ≤ m.commit) : Covers k m.log n.log := by
  obtain ⟨T,-,hT,hc⟩ := hn.commit
  obtain ⟨T',-,hT',hc'⟩ := hm.commit
  have hmid := hh.comm_covers (hk'.trans hT') ((hk.trans hT).trans (hl.comm T))
  exact ((hc'.mono hk').trans hmid).trans ((hc.mono hk).grow (hl.llog T)).symm

/-- What a node has committed, a leader of the same or a later term has. -/
theorem NodeInv.commit_led (hn : NodeInv B h i n) (hm : NodeInv B h' j m) (hh : HistInv B h')
    (hl : h.Later h') (hlead : m.role=.leader) (hterm : n.term ≤ m.term) :
    Covers n.commit m.log n.log := by
  obtain ⟨T,hle,hT,hc⟩ := hn.commit
  obtain ⟨hled,hlog,-⟩ := hm.leader hlead
  have hcov := hh.covers_comm (hle.trans hterm) (hled ▸ rfl)
  rw [hlog]
  exact (hcov.mono (hT.trans (hl.comm T))).trans (hc.grow (hl.llog T)).symm

end Consensus

namespace Host

/-- The entries that the node knows to be committed. -/
def committedLog (H : Host) : List Entry := H.rn.raft.raftLog.all.take H.rn.raft.raftLog.committed

/-- How many entries the application has applied. -/
def done (H : Host) : Nat :=
  (match H.pending with
    | none => H.rn.raft.raftLog.applied
    | some rd => max H.rn.raft.raftLog.applied rd.appliedCursor)-H.toApply.length

section

variable [Raftpb] {F : Founding} {B : Base Entry} {h : Hist Entry} {i a : Nat} {H H' : Host}
  {e : Event} {ms : List Message}

theorem Does.hardLe (hst : ∀ m, e.message H.rn.raft.id=some m → m.Stamped) (hd : H.Does e H' ms) :
    HardLe H.rn.raft.core H'.rn.raft.core := by
  cases hd with
  | stay => exact .refl _
  | @step _ m r err hm hr =>
    exact (Raft.step_moves (S := fun _ => True) (fun _ => trivial) (hst m hm) hr).hardLe
  | tick hr => exact (Raft.tick_moves (S := fun _ => True) hr).hardLe
  | ready _ hr =>
    obtain ⟨rd,-,hr⟩ := bind_eq_ok.mp hr
    cases hr
    exact .of_log rfl rfl le_rfl
  | save => exact .of_log rfl rfl le_rfl
  | @apply e es H1 _ he =>
    change HardLe H.rn.raft.core H1.rn.raft.core
    obtain ⟨cc,-,he⟩ := bind_eq_ok.mp he
    cases cc with
    | none =>
      cases he
      exact .refl _
    | some cc =>
      obtain ⟨⟨rn,cs⟩,h1,he⟩ := bind_eq_ok.mp he
      cases he
      have hop : H.rn.runOp (.applyConfChange cc)=.ok rn := bind_eq_ok.mpr ⟨(rn,cs),h1,rfl⟩
      exact RawNode.runOp_hardLe (fun _ hm => by cases hm) hop
  | @advance rd rn _ _ _ hr =>
    have hop : H.rn.runOp (.advance rd)=.ok rn := hr
    exact RawNode.runOp_hardLe (fun _ hm => by cases hm) hop

end

end Host

theorem HostPlaced.done_eq [Raftpb] {F : Founding} {B : Base Entry} {h : Hist Entry} {i a : Nat}
    {H : Host} (hp : HostPlaced F B h i a H) : H.done=a := by
  unfold Host.done
  cases hpend : H.pending with
  | none =>
    obtain ⟨ha,hnil⟩ := hp.idle hpend
    rw [hnil]
    exact ha
  | some rd =>
    dsimp only
    rw [hp.cursor rd hpend]
    exact Nat.add_sub_cancel _ _

namespace Cluster

/-- What the cluster has decided, as far as one of its hosts knows. -/
def decided (c : Cluster) : List Entry :=
  longest (c.hosts.pairs.map (fun p => p.2.committedLog))

/-- The log that the hosts read from, each as far as it has committed. -/
def ledger (c : Cluster) : Ledger Entry where
  log := c.decided
  seen := fun i => ((c.hosts.get? i).map (·.rn.raft.raftLog.committed)).getD 0

theorem mem_committed {c : Cluster} {l : List Entry} :
    l ∈ c.hosts.pairs.map (fun p => p.2.committedLog) ↔
      ∃ i H, c.hosts.get? i=some H ∧ l=H.committedLog := by
  rw [List.mem_map]
  constructor
  · rintro ⟨⟨i,H⟩,hmem,rfl⟩
    exact ⟨i,H,SortedMap.get?_of_mem hmem,rfl⟩
  · rintro ⟨i,H,hH,rfl⟩
    exact ⟨(i,H),SortedMap.mem_pairs hH,rfl⟩

theorem act_cases [Raftpb] {c c' : Cluster} {i : Nat} {e : Event} (ha : c.act i e=.ok c') :
    c'=c ∨ ∃ H H' ms, c.hosts.get? i=some H ∧ c.enabled i e=true ∧ H.act e=.ok (H',ms) ∧
      c'=⟨c.hosts.insert i H',c.net++ms⟩ := by
  unfold act at ha
  split at ha
  · cases ha
    exact .inl rfl
  · rename_i H hH
    split_ifs at ha with hen
    · obtain ⟨⟨H',ms⟩,hact,ha⟩ := bind_eq_ok.mp ha
      cases ha
      exact .inr ⟨H,H',ms,hH,hen,hact,rfl⟩
    · cases ha
      exact .inl rfl

end Cluster

section

variable [Raftpb] {F : Founding} {B : Base Entry} {h h' : Hist Entry} {c c' : Cluster} {i : Nat}
  {e : Event}

theorem HostPlaced.committedLog_length {a : Nat} {H : Host} (hp : HostPlaced F B h i a H) :
    H.committedLog.length=H.rn.raft.raftLog.committed :=
  List.length_take_of_le hp.hosted.core.committed_le

namespace Realm

/-- Whatever happens, the hosts stay in their places. -/
theorem step (hr : Realm F B h c) (ha : c.act i e=.ok c') :
    ∃ h', h.Grown i h' ∧ Realm F B h' c' := by
  have hany : Upheld F B i (fun _ _ => True) :=
    ⟨fun _ _ _ _ => trivial,fun _ => trivial,fun _ => trivial,fun _ => trivial⟩
  obtain ⟨h',g,hr',-,-⟩ := hr.act (fun _ => hany) (fun _ _ => trivial) (by
    intro H a m r err hH hp hen hm hstep
    have hgiven := hr.given hen hm
    have hmoves := Raft.step_moves (S := (·=m)) (fun _ => rfl) hgiven.1.2.1 hstep
    exact Core.chain_carried (S := (·=m)) (P := fun _ _ => True) (fun hm => .move hm)
      (fun n hn => hn ▸ hgiven) (fun _ _ _ _ _ => trivial) (hp.ordered hr.hist hr.governed)
      trivial hmoves (hmoves.fixed.2.trans_le hp.placed.applied)) ha
  exact ⟨h',g,hr'⟩

/-- What two hosts have committed is the same, also if the second one is asked later. -/
theorem committed_same (hr : Realm F B h c) (hr' : Realm F B h' c') (hl : h.Later h') {i j : Nat}
    {I J : Host} (hI : c.hosts.get? i=some I) (hJ : c'.hosts.get? j=some J) {k : Nat}
    (hk : k≤I.rn.raft.raftLog.committed) (hk' : k≤J.rn.raft.raftLog.committed) :
    I.rn.raft.raftLog.all.take k=J.rn.raft.raftLog.all.take k := by
  obtain ⟨a,hp⟩ := hr.hosts i I hI
  obtain ⟨b,hp'⟩ := hr'.hosts j J hJ
  exact (hp.hosted.core.node.commit_later hp'.hosted.core.node hr'.hist hl hk hk').2.symm

theorem isPrefix_of_le (hr : Realm F B h c) (hr' : Realm F B h' c') (hl : h.Later h') {i j : Nat}
    {I J : Host} (hI : c.hosts.get? i=some I) (hJ : c'.hosts.get? j=some J)
    (hle : I.rn.raft.raftLog.committed≤J.rn.raft.raftLog.committed) :
    I.committedLog<+:J.committedLog := by
  unfold Host.committedLog
  rw [hr.committed_same hr' hl hI hJ le_rfl hle]
  exact List.take_prefix_take_left hle

theorem isPrefix_decided (hr : Realm F B h c) {H : Host} (hH : c.hosts.get? i=some H) :
    H.committedLog<+:c.decided := by
  refine isPrefix_longest ?_ (Cluster.mem_committed.mpr ⟨i,H,hH,rfl⟩)
  intro l hl l' hl' hle
  obtain ⟨i,I,hI,rfl⟩ := Cluster.mem_committed.mp hl
  obtain ⟨j,J,hJ,rfl⟩ := Cluster.mem_committed.mp hl'
  obtain ⟨a,hp⟩ := hr.hosts i I hI
  obtain ⟨b,hp'⟩ := hr.hosts j J hJ
  rw [hp.committedLog_length,hp'.committedLog_length] at hle
  exact hr.isPrefix_of_le hr (.refl h) hI hJ hle

/-- A host has committed what the ledger gives it. -/
theorem given_eq (hr : Realm F B h c) {H : Host} (hH : c.hosts.get? i=some H) :
    c.ledger.given i=H.committedLog := by
  obtain ⟨a,hp⟩ := hr.hosts i H hH
  have hseen : c.ledger.seen i=H.committedLog.length := by
    rw [hp.committedLog_length]
    change ((c.hosts.get? i).map _).getD 0=_
    rw [hH]
    rfl
  unfold Ledger.given
  rw [hseen]
  exact (List.prefix_iff_eq_take.mp (hr.isPrefix_decided hH)).symm

/-- An event writes to the ledger, or lets its host read on. -/
theorem ledger_steps (hr : Realm F B h c) (ha : c.act i e=.ok c') : c.ledger.Steps c'.ledger := by
  obtain ⟨h',g,hr'⟩ := hr.step ha
  have hl : h.Later h' := g.andLater (.refl h')
  rcases Cluster.act_cases ha with rfl | ⟨H,H',ms,hH,hen,hact,rfl⟩
  · exact .refl _
  have hH' : (c.hosts.insert i H').get? i=some H' := SortedMap.get?_insert_self ..
  have hle : H.rn.raft.raftLog.committed≤H'.rn.raft.raftLog.committed :=
    ((Host.act_does hact).hardLe (fun m hm => (hr.given hen hm).1.2.1)).committed
  refine Ledger.Steps.of_moved (i := i) ?_ ?_ ?_ ?_
  · change longest _<+:_
    by_cases hnil : c.hosts.pairs.map (fun p => p.2.committedLog)=[]
    · rw [hnil]
      exact List.nil_prefix
    obtain ⟨j,J,hJ,hlong⟩ := Cluster.mem_committed.mp (longest_mem hnil)
    rw [hlong]
    by_cases hji : j=i
    · subst hji
      cases hH.symm.trans hJ
      exact (hr.isPrefix_of_le hr' hl hH hH' hle).trans (hr'.isPrefix_decided hH')
    · exact hr'.isPrefix_decided ((SortedMap.get?_insert_ne _ _ hji).trans hJ)
  · intro j hji
    change (((c.hosts.insert i H').get? j).map _).getD 0=_
    rw [SortedMap.get?_insert_ne _ _ hji]
    rfl
  · change ((c.hosts.get? i).map _).getD 0≤(((c.hosts.insert i H').get? i).map _).getD 0
    rw [hH,hH']
    exact hle
  · change (((c.hosts.insert i H').get? i).map _).getD 0≤_
    obtain ⟨a,hp⟩ := hr'.hosts i H' hH'
    rw [hH']
    have hpre := (hr'.isPrefix_decided hH').length_le
    rw [hp.committedLog_length] at hpre
    exact hpre

end Realm

namespace Cluster

theorem run_realm {allowed : Cluster → Nat → Event → Bool} {es : List (Nat × Event)}
    (hr : Realm F B h c) (he : c.run allowed es=some c') :
    ∃ h', h.Later h' ∧ Realm F B h' c' ∧ c.ledger.Steps c'.ledger := by
  induction es generalizing c h with
  | nil =>
    cases he
    exact ⟨h,.refl h,hr,.refl _⟩
  | cons e es ih =>
    obtain ⟨i,e⟩ := e
    simp only [run] at he
    split_ifs at he
    split at he
    · cases he
    · rename_i c1 hact
      obtain ⟨h1,g,hr1⟩ := hr.step hact
      obtain ⟨h2,l,hr2,hs⟩ := ih hr1 he
      exact ⟨h2,g.andLater l,hr2,(hr.ledger_steps hact).trans hs⟩

end Cluster

end

namespace Cluster

section

variable [Raftpb] {F : Founding} {B : Base Entry}
  {allowed allowed' : Cluster → Nat → Event → Bool} {c0 c1 c2 : Cluster}
  {before after : List (Nat × Event)}

/-- The cluster is one append-only log to all its hosts, also while its members change: along
every run the log is written at the end, and each host has committed a part of it that
nothing is ever taken from. -/
theorem run_refines (hf : c0.Founded F B) (h1 : c0.run allowed before=some c1)
    (h2 : c1.run allowed' after=some c2) : c1.ledger.Steps c2.ledger ∧
    ∀ i H, c2.hosts.get? i=some H → c2.ledger.given i=H.committedLog ∧
      c1.ledger.given i<+:H.committedLog := by
  obtain ⟨h1,-,hr1,-⟩ := run_realm hf.realm h1
  obtain ⟨h2,-,hr2,hs⟩ := run_realm hr1 h2
  refine ⟨hs,fun i H hH => ?_⟩
  have hgiven := hr2.given_eq hH
  exact ⟨hgiven,hgiven ▸ hs.given_isPrefix i⟩

end

section

local instance ledgerWire : Raftpb := Wire.small

def free (_ : Cluster) (_ : Nat) (_ : Event) : Bool := true

/-- Node 1 has applied its own removal. -/
def parted : Cluster := (two.run free (removal.take 41)).getD two

/-- Node 2 has gone on alone, to term 3. -/
def alone : Cluster := (parted.run free (removal.drop 41)).getD parted

theorem parted_eq : two.run free (removal.take 41)=some parted := run_isSome (by decide +kernel)

theorem alone_eq : parted.run free (removal.drop 41)=some alone := run_isSome (by decide +kernel)

theorem two_founded : two.Founded twoFounding (bootBase twoPeers) :=
  started_founded twoPeers (by decide +kernel)

def firstParted : Host := (parted.hosts.get? 1).get (by decide +kernel)

def firstLeft : Host := (alone.hosts.get? 1).get (by decide +kernel)

def secondLeft : Host := (alone.hosts.get? 2).get (by decide +kernel)

theorem firstParted_eq : parted.hosts.get? 1=some firstParted := (Option.some_get _).symm

theorem firstLeft_eq : alone.hosts.get? 1=some firstLeft := (Option.some_get _).symm

theorem secondLeft_eq : alone.hosts.get? 2=some secondLeft := (Option.some_get _).symm

theorem run_refines_removal : parted.ledger.Steps alone.ledger ∧ alone.ledger.log.length=5 ∧
    alone.ledger.given 1=firstLeft.committedLog ∧ alone.ledger.given 2=secondLeft.committedLog := by
  obtain ⟨hs,hgiven⟩ := run_refines two_founded parted_eq alone_eq
  exact ⟨hs,by decide +kernel,(hgiven 1 firstLeft firstLeft_eq).1,
    (hgiven 2 secondLeft secondLeft_eq).1⟩

end

section

variable [Raftpb] {F : Founding} {B : Base Entry}
  {allowed allowed' : Cluster → Nat → Event → Bool} {c0 c1 c2 : Cluster}
  {before after : List (Nat × Event)}

/-- Election safety while the members change: a term has one leader. -/
theorem elected_once (hf : c0.Founded F B) (h1 : c0.run allowed before=some c1)
    (h2 : c1.run allowed' after=some c2) {i j : Nat} {I J : Host} (hI : c1.hosts.get? i=some I)
    (hJ : c2.hosts.get? j=some J) (hlI : I.rn.raft.state=.stateLeader)
    (hlJ : J.rn.raft.state=.stateLeader) (hterm : I.rn.raft.term=J.rn.raft.term) : i=j := by
  obtain ⟨h1,-,hr1,-⟩ := run_realm hf.realm h1
  obtain ⟨h2,hl,hr2,-⟩ := run_realm hr1 h2
  obtain ⟨a,hpI⟩ := hr1.hosts i I hI
  obtain ⟨b,hpJ⟩ := hr2.hosts j J hJ
  have hi : h1.lead I.rn.raft.term=some i := (hpI.hosted.core.leader hlI).1
  have hj : h2.lead J.rn.raft.term=some j := (hpJ.hosted.core.leader hlJ).1
  rw [hterm] at hi
  exact Option.some.inj ((hl.lead _ _ hi).symm.trans hj)

end

section

attribute [local instance] ledgerWire

theorem elected_once_removal : firstParted.rn.raft.state=.stateLeader ∧
    firstLeft.rn.raft.state=.stateLeader ∧ firstParted.rn.raft.term=firstLeft.rn.raft.term ∧
    (1 : Nat)=1 := by
  have hI : firstParted.rn.raft.state=.stateLeader := by decide +kernel
  have hJ : firstLeft.rn.raft.state=.stateLeader := by decide +kernel
  have ht : firstParted.rn.raft.term=firstLeft.rn.raft.term := by decide +kernel
  exact ⟨hI,hJ,ht,elected_once two_founded parted_eq alone_eq firstParted_eq firstLeft_eq hI hJ ht⟩

end

section

variable [Raftpb] {F : Founding} {B : Base Entry}
  {allowed allowed' : Cluster → Nat → Event → Bool} {c0 c1 c2 : Cluster}
  {before after : List (Nat × Event)}

/-- Leader completeness while the members change: what a host has committed is in the log of
whoever leads later in the same term or a later one. -/
theorem leader_complete (hf : c0.Founded F B) (h1 : c0.run allowed before=some c1)
    (h2 : c1.run allowed' after=some c2) {i j : Nat} {I J : Host} (hI : c1.hosts.get? i=some I)
    (hJ : c2.hosts.get? j=some J) (hl : J.rn.raft.state=.stateLeader)
    (hterm : I.rn.raft.term≤J.rn.raft.term) : I.committedLog<+:J.rn.raft.raftLog.all := by
  obtain ⟨h1,-,hr1,-⟩ := run_realm hf.realm h1
  obtain ⟨h2,hlater,hr2,-⟩ := run_realm hr1 h2
  obtain ⟨a,hpI⟩ := hr1.hosts i I hI
  obtain ⟨b,hpJ⟩ := hr2.hosts j J hJ
  have hcov := hpI.hosted.core.node.commit_led hpJ.hosted.core.node hr2.hist hlater
    (StateType.role_leader.mpr hl) hterm
  have htake : J.rn.raft.raftLog.all.take I.rn.raft.raftLog.committed=I.committedLog := hcov.2
  exact htake ▸ List.take_prefix _ _

end

section

attribute [local instance] ledgerWire

theorem leader_complete_removal : firstParted.committedLog.length=4 ∧
    secondLeft.rn.raft.state=.stateLeader ∧ firstParted.rn.raft.term<secondLeft.rn.raft.term ∧
    firstParted.committedLog<+:secondLeft.rn.raft.raftLog.all := by
  have hl : secondLeft.rn.raft.state=.stateLeader := by decide +kernel
  have ht : firstParted.rn.raft.term<secondLeft.rn.raft.term := by decide +kernel
  exact ⟨by decide +kernel,hl,ht,
    leader_complete two_founded parted_eq alone_eq firstParted_eq secondLeft_eq hl ht.le⟩

end

section

variable [Raftpb] {F : Founding} {B : Base Entry}
  {allowed allowed' : Cluster → Nat → Event → Bool} {c0 c1 c2 : Cluster}
  {before after : List (Nat × Event)}

/-- Two hosts that have applied equally many entries, not necessarily at the same moment, have
the same configuration. -/
theorem config_agrees (hf : c0.Founded F B) (h1 : c0.run allowed before=some c1)
    (h2 : c1.run allowed' after=some c2) {i j : Nat} {I J : Host} (hI : c1.hosts.get? i=some I)
    (hJ : c2.hosts.get? j=some J) (hdone : I.done=J.done) :
    I.rn.raft.prs.config=J.rn.raft.prs.config := by
  obtain ⟨h1,-,hr1,-⟩ := run_realm hf.realm h1
  obtain ⟨h2,hl,hr2,-⟩ := run_realm hr1 h2
  obtain ⟨a,hpI⟩ := hr1.hosts i I hI
  obtain ⟨b,hpJ⟩ := hr2.hosts j J hJ
  obtain rfl : a=b := hpI.done_eq.symm.trans (hdone.trans hpJ.done_eq)
  have hlog := hr1.committed_same hr2 hl hI hJ hpI.placed.committed hpJ.placed.committed
  have hpath := hpI.placed.path
  rw [show I.rn.raft.core.raftLog.all.take a=_ from hlog] at hpath
  exact hpath.eq hpJ.placed.path

end

section

attribute [local instance] ledgerWire

theorem config_agrees_removal : firstParted.done=4 ∧ secondLeft.done=4 ∧
    firstParted.rn.raft.prs.config=secondLeft.rn.raft.prs.config := by
  have hI : firstParted.done=4 := by decide +kernel
  have hJ : secondLeft.done=4 := by decide +kernel
  exact ⟨hI,hJ,config_agrees two_founded parted_eq alone_eq firstParted_eq secondLeft_eq
    (hI.trans hJ.symm)⟩

end

end Cluster

end RaftTesting
